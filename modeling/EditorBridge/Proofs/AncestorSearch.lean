/-
The search for the nodes above a node.  The search takes one waiting node after another and puts
the children of each in its place, so it ends after at most as many rounds as there are paths
down from its root.  It finds nothing exactly when it starts at the node it looks for or cannot
reach it; what it finds otherwise is a way down from the root, read backwards, and without shared
children these are all nodes above.
-/
import EditorBridge.Proofs.Innermost
import Mathlib.Data.List.Chain
import Mathlib.Logic.Relation

namespace EditorBridge

namespace Graph

variable {g : Graph} {root target : NodeId}

/-- The search from some waiting nodes, each with the nodes above it, ends with a way up after a
number of rounds.  A round takes the first waiting node; its children wait before the others, the
last one first. -/
inductive SearchEnds (g : Graph) (target : NodeId) :
    Nat → List (NodeId × List NodeId) → List NodeId → Prop where
  | exhausted : SearchEnds g target 0 [] []
  | found (above : List NodeId) (waiting : List (NodeId × List NodeId)) :
      SearchEnds g target 1 ((target, above) :: waiting) above
  | passed {rounds : Nat} {id : NodeId} {above path : List NodeId}
      {waiting : List (NodeId × List NodeId)} (hne : id ≠ target)
      (hrest : SearchEnds g target rounds
        ((g.children id).reverse.map (fun child => (child, id :: above)) ++ waiting) path) :
      SearchEnds g target (rounds + 1) ((id, above) :: waiting) path

/-- The number of paths that lead down from the waiting nodes. -/
def pathCount (g : Graph) (waiting : List (NodeId × List NodeId)) : Nat :=
  total (waiting.map fun entry => g.weight entry.1)

theorem pathCount_cons (g : Graph) (entry : NodeId × List NodeId)
    (waiting : List (NodeId × List NodeId)) :
    g.pathCount (entry :: waiting) = g.weight entry.1 + g.pathCount waiting := rfl

/-- The children of a node have all its paths but the empty one. -/
theorem pathCount_children (g : Graph) (id : NodeId) (above : List NodeId)
    (waiting : List (NodeId × List NodeId)) :
    g.pathCount ((g.children id).reverse.map (fun child => (child, id :: above)) ++ waiting) + 1 =
      g.weight id + g.pathCount waiting := by
  have hchildren : ((g.children id).reverse.map fun child => (child, id :: above)).map
      (fun entry => g.weight entry.1) = ((g.children id).map g.weight).reverse := by
    rw [List.map_map, List.map_reverse]
    rfl
  rw [pathCount, List.map_append, total_append, hchildren, total_reverse, g.weight_eq id,
    pathCount]
  omega

/-- Each round leaves fewer paths. -/
theorem searchEnds_ancestorsFrom (g : Graph) (target : NodeId)
    (waiting : List (NodeId × List NodeId)) :
    ∃ rounds ≤ g.pathCount waiting,
      g.SearchEnds target rounds waiting (g.ancestorsFrom target waiting) := by
  induction waiting using Graph.ancestorsFrom.induct g target with
  | case1 =>
      rw [ancestorsFrom]
      exact ⟨0, Nat.zero_le _, .exhausted⟩
  | case2 above waiting =>
      rw [ancestorsFrom, if_pos rfl, pathCount_cons, weight_eq]
      exact ⟨1, by omega, .found above waiting⟩
  | case3 id above waiting hne ih =>
      rw [ancestorsFrom, if_neg hne]
      obtain ⟨rounds, hrounds, hrest⟩ := ih
      refine ⟨rounds + 1, ?_, .passed hne hrest⟩
      rw [pathCount_cons, ← g.pathCount_children id above waiting]
      exact Nat.succ_le_succ hrounds

theorem ancestors_self (g : Graph) (root : NodeId) : g.ancestors root root = [] := by
  rw [ancestors, ancestorsFrom, if_pos rfl]

theorem ancestors_eq_nil_iff :
    g.ancestors root target = [] ↔ target = root ∨ ¬g.AtOrBelow target root := by
  constructor
  · intro hnone
    by_cases hbelow : g.AtOrBelow target root
    · have hroute := route_of_atOrBelow hbelow
      rw [hnone] at hroute
      cases hroute with
      | top => exact Or.inl rfl
    · exact Or.inr hbelow
  · rintro (rfl | hout)
    · exact g.ancestors_self target
    · exact ancestors_of_not_atOrBelow hout

/-- Read upwards, a way up goes from each node to one whose child it is, and ends at the root. -/
theorem Route.isChain {path : List NodeId} (hroute : g.Route root target path) :
    (target :: path).IsChain (fun id above => id ∈ g.children above) ∧
      (target :: path).getLast? = some root := by
  induction hroute with
  | top => exact ⟨List.isChain_singleton _, rfl⟩
  | up hchild _ ih =>
      refine ⟨List.isChain_cons_cons.mpr ⟨hchild, ih.1⟩, ?_⟩
      rw [List.getLast?_cons_cons]
      exact ih.2

theorem nodup_ancestors (g : Graph) (root target : NodeId) : (g.ancestors root target).Nodup := by
  refine (g.pairwise_ancestors root target).imp fun {id above} hbelow hsame => ?_
  rw [hsame] at hbelow
  exact g.not_below_self above hbelow

/-- The nodes above a node are a real way up.  In every graph the search ends, after no more rounds
than there are paths down from its root.  It finds nothing exactly when it starts at the node it
looks for, or cannot reach it.  Otherwise what it finds, backwards and with that node behind it,
begins at the root and goes from each node to one of its children.  Without shared children these
are all nodes above that one, each once and the nearer before the farther. -/
theorem ancestors_lead_up (g : Graph) (root target : NodeId) :
    (∃ rounds ≤ g.weight root,
      g.SearchEnds target rounds [(root, [])] (g.ancestors root target)) ∧
    (g.ancestors root target = [] ↔ target = root ∨ ¬g.AtOrBelow target root) ∧
    (g.AtOrBelow target root →
      ((g.ancestors root target).reverse ++ [target]).head? = some root ∧
      ((g.ancestors root target).reverse ++ [target]).IsChain
        fun above id => id ∈ g.children above) ∧
    (g.Unshared root →
      (∀ id, id ∈ g.ancestors root target ↔ g.AtOrBelow id root ∧ g.Below target id) ∧
      (g.ancestors root target).Nodup ∧ (g.ancestors root target).Pairwise g.Below) := by
  refine ⟨g.searchEnds_ancestorsFrom target [(root, [])], ancestors_eq_nil_iff, ?_, ?_⟩
  · intro hbelow
    obtain ⟨hchain, hlast⟩ := (route_of_atOrBelow hbelow).isChain
    rw [← List.reverse_cons, List.head?_reverse]
    exact ⟨hlast, List.isChain_reverse.mpr hchain⟩
  · intro hunshared
    exact ⟨fun id => mem_ancestors_iff hunshared, g.nodup_ancestors root target,
      g.pairwise_ancestors root target⟩

/-- Lists of the nodes below each node show that a tree has no shared children. -/
theorem ListsBelow.unshared {rows : List (List NodeId)} (hrows : g.ListsBelow rows)
    (hparent : ∀ above ∈ root :: rows.getD root [], ∀ other ∈ root :: rows.getD root [],
      ∀ child ∈ g.children above, child ∈ g.children other → above = other)
    (honce : ∀ above ∈ root :: rows.getD root [], (g.children above).Nodup) : g.Unshared root := by
  have hinside : ∀ id, g.AtOrBelow id root → id ∈ root :: rows.getD root [] := by
    intro id hid
    rcases Relation.reflTransGen_iff_eq_or_transGen.mp hid with hsame | hbelow
    · rw [hsame]
      exact List.mem_cons_self
    · exact List.mem_cons_of_mem root (hrows.below_iff.mp hbelow)
  constructor
  · intro child above other habove hother hchild
    exact hparent above (hinside above habove) other (hinside other hother) child hchild
  · exact fun above habove => honce above (hinside above habove)

/-- The node 3 is the child of two nodes, of which one has a subtree without shared children. -/
def diamondGraph : Graph :=
  (Graph.ofTables? #[] #[]
    #[{ children := [1, 2] }, { children := [3] }, { children := [4, 3] }, {},
      { children := [5] }, {}] .empty).get (by decide +kernel)

theorem ancestors_lead_up_in_diamond :
    diamondGraph.Unshared 2 ∧
      (∃ rounds ≤ 4, diamondGraph.SearchEnds 5 rounds [(2, [])] (diamondGraph.ancestors 2 5)) ∧
      ∀ id, id ∈ diamondGraph.ancestors 2 5 ↔
        diamondGraph.AtOrBelow id 2 ∧ diamondGraph.Below 5 id := by
  have hrows : diamondGraph.ListsBelow [[1, 3, 2, 4, 5, 3], [3], [4, 5, 3], [], [5], []] := by
    decide +kernel
  have hunshared : diamondGraph.Unshared 2 := hrows.unshared (by decide +kernel) (by decide +kernel)
  have hweight : diamondGraph.weight 2 = 4 := by cbv
  have hfound := diamondGraph.ancestors_lead_up 2 5
  rw [hweight] at hfound
  exact ⟨hunshared, hfound.1, (hfound.2.2.2 hunshared).1⟩

/-- The last child is looked at first. -/
example : diamondGraph.ancestors 0 3 = [2, 0] := by cbv

end Graph

end EditorBridge
