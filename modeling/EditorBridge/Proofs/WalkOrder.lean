/-
The order of a walk.  A walk takes one waiting node after another and puts its children in its
place, so it ends after as many rounds as there are paths down from its root.  Its order is the one
order in which each node stands before the subtrees of its children, and these from left to right.
A node is met once for each path that leads down to it.  Without shared children it is met once,
before all nodes below it, and the nodes below a child before those below a later one.
-/
import EditorBridge.Proofs.AncestorSearch
import Mathlib.Data.List.Nodup
import Mathlib.Data.Set.Card

namespace EditorBridge

namespace Graph

variable {g : Graph} {root id above : NodeId}

/-- The walk from some waiting nodes ends with the nodes that it met, after a number of rounds.  A
round meets the first waiting node; its children wait before the others, the first one first. -/
inductive WalkEnds (g : Graph) : Nat → List NodeId → List NodeId → Prop where
  | exhausted : WalkEnds g 0 [] []
  | met {rounds : Nat} {id : NodeId} {waiting behind : List NodeId}
      (hrest : WalkEnds g rounds (g.children id ++ waiting) behind) :
      WalkEnds g (rounds + 1) (id :: waiting) (id :: behind)

/-- Each round leaves one path fewer. -/
theorem walkEnds_walkFrom (g : Graph) (waiting : List NodeId) :
    g.WalkEnds (total (waiting.map g.weight)) waiting (g.walkFrom waiting) := by
  induction waiting using Graph.walkFrom.induct g with
  | case1 =>
      rw [walkFrom]
      exact .exhausted
  | case2 id waiting ih =>
      have hrounds : total ((id :: waiting).map g.weight) =
          total ((g.children id ++ waiting).map g.weight) + 1 := by
        rw [List.map_cons, total, weight_eq, List.map_append, total_append]
        omega
      rw [walkFrom, hrounds]
      exact .met ih

theorem walkEnds_walk (g : Graph) (root : NodeId) :
    g.WalkEnds (g.weight root) [root] (g.walk root) :=
  g.walkEnds_walkFrom [root]

/-- There is one order in which each node stands before the subtrees of its children. -/
theorem eq_walk_iff {order : NodeId → List NodeId} :
    (∀ id, order id = id :: (g.children id).flatMap order) ↔ order = g.walk := by
  have hwalk : g.walk = g.preorder := funext g.walk_eq_preorder
  rw [hwalk]
  constructor
  · intro horder
    funext id
    induction id using g.acyclic.induction with
    | _ id ih =>
        rw [horder, preorder_eq]
        exact congrArg (id :: ·) (List.flatMap_congr ih)
  · rintro rfl
    exact g.preorder_eq

/-- The node that a path leads down to.  A path takes a child by its place among the children of a
node, again and again. -/
def descend (g : Graph) (id : NodeId) : List Nat → Option NodeId
  | [] => some id
  | place :: path => (g.children id)[place]?.bind fun child => g.descend child path

/-- All paths down from a node, in the order in which a walk takes them. -/
def paths (g : Graph) (id : NodeId) : List (List Nat) :=
  [] :: (List.finRange (g.children id).length).flatMap fun place =>
    (g.paths (g.children id)[place]).map (place.val :: ·)
termination_by g.acyclic.wrap id
decreasing_by exact List.getElem_mem _

theorem descend_cons (g : Graph) (id : NodeId) (place : Fin (g.children id).length)
    (path : List Nat) :
    g.descend id (place.val :: path) = g.descend (g.children id)[place] path := by
  rw [descend, List.getElem?_eq_getElem place.isLt, Option.bind_some]
  rfl

/-- A walk meets the nodes that the paths lead down to, one for each path. -/
theorem map_descend_paths (g : Graph) (root : NodeId) :
    (g.paths root).map (g.descend root) = (g.walk root).map some := by
  rw [walk_eq_preorder]
  induction root using g.acyclic.induction with
  | _ root ih =>
      have hchildren : (g.children root).flatMap g.preorder =
          (List.finRange (g.children root).length).flatMap
            fun place => g.preorder (g.children root)[place] := by
        conv_lhs => rw [← List.map_getElem_finRange (g.children root), List.flatMap_map]
        rfl
      rw [paths, preorder_eq, hchildren, List.map_cons, List.map_cons, List.map_flatMap,
        List.map_flatMap]
      refine congrArg (some root :: ·) (List.flatMap_congr fun place _ => ?_)
      refine Eq.trans ?_ (ih (g.children root)[place] (List.getElem_mem place.isLt))
      rw [List.map_map]
      exact List.map_congr_left fun path _ => g.descend_cons root place path

theorem mem_paths_of_descend {path : List Nat} (hpath : g.descend root path = some id) :
    path ∈ g.paths root := by
  induction path generalizing root with
  | nil =>
      rw [paths]
      exact List.mem_cons_self
  | cons place path ih =>
      obtain ⟨child, hchild, hrest⟩ := Option.bind_eq_some_iff.mp hpath
      obtain ⟨hplace, rfl⟩ := List.getElem?_eq_some_iff.mp hchild
      rw [paths]
      refine List.mem_cons_of_mem _ (List.mem_flatMap.mpr ⟨⟨place, hplace⟩, ?_, ?_⟩)
      · exact List.mem_finRange _
      · exact List.mem_map_of_mem (ih hrest)

theorem nodup_paths (g : Graph) (root : NodeId) : (g.paths root).Nodup := by
  induction root using g.acyclic.induction with
  | _ root ih =>
      rw [paths, List.nodup_cons, List.nodup_flatMap]
      refine ⟨?_, fun place _ => ?_, ?_⟩
      · intro hnil
        obtain ⟨place, -, hmem⟩ := List.mem_flatMap.mp hnil
        obtain ⟨path, -, hcons⟩ := List.mem_map.mp hmem
        exact List.cons_ne_nil _ _ hcons
      · exact (ih _ (List.getElem_mem place.isLt)).map List.cons_injective
      · refine (List.nodup_finRange _).imp fun {place other} hne path hpath hother => ?_
        obtain ⟨rest, -, rfl⟩ := List.mem_map.mp hpath
        obtain ⟨more, -, hcons⟩ := List.mem_map.mp hother
        exact hne (Fin.ext (List.cons.inj hcons).1.symm)

/-- A walk meets a node as often as there are paths that lead down to it. -/
theorem encard_paths (g : Graph) (root id : NodeId) :
    {path | g.descend root path = some id}.encard = (g.walk root).count id := by
  have hpaths : {path | g.descend root path = some id} =
      ((g.paths root).filter fun path => g.descend root path == some id).toFinset := by
    ext path
    simp only [Set.mem_ofPred_eq, List.coe_toFinset, List.mem_filter, beq_iff_eq]
    exact ⟨fun hpath => ⟨mem_paths_of_descend hpath, hpath⟩, And.right⟩
  have hcount : (g.walk root).count id =
      (g.paths root).countP fun path => g.descend root path == some id := by
    rw [← List.count_map_of_injective _ some (Option.some_injective _), ← map_descend_paths,
      List.count, List.countP_map]
    rfl
  rw [hpaths, Set.encard_coe_eq_coe_finsetCard,
    List.toFinset_card_of_nodup ((g.nodup_paths root).filter _), ← List.countP_eq_length_filter,
    hcount]

/-- One node comes before another one in a list. -/
def Precedes (nodes : List NodeId) (first later : NodeId) : Prop :=
  [first, later].Sublist nodes

instance (nodes : List NodeId) (first later : NodeId) : Decidable (Precedes nodes first later) :=
  inferInstanceAs (Decidable ([first, later].Sublist nodes))

/-- The walk from a node below the root is a part of that from the root. -/
theorem walk_part_of_walk (habove : g.AtOrBelow above root) : g.walk above <:+: g.walk root := by
  rw [walk_eq_preorder, walk_eq_preorder]
  induction habove with
  | refl => exact List.infix_refl _
  | @tail parent outer _ hparent ih =>
      have hchild := List.infix_flatMap_of_mem hparent g.preorder
      rw [preorder_eq g outer]
      exact ih.trans (hchild.trans (List.suffix_cons outer _).isInfix)

theorem singleton_sublist_walk (hid : g.AtOrBelow id root) : [id].Sublist (g.walk root) := by
  rw [List.singleton_sublist, walk_eq_preorder]
  exact mem_preorder_iff.mpr hid

/-- A node comes before all nodes below it. -/
theorem precedes_of_below (habove : g.AtOrBelow above root) (hid : g.Below id above) :
    Precedes (g.walk root) above id := by
  refine List.Sublist.trans ?_ (walk_part_of_walk habove).sublist
  obtain ⟨child, hchild, hbelow⟩ := below_iff.mp hid
  rw [walk_eq_preorder, preorder_eq, List.cons_sublist_cons, List.singleton_sublist]
  exact List.mem_flatMap.mpr ⟨child, hchild, mem_preorder_iff.mpr hbelow⟩

/-- Below a node, what lies at or below a child comes before what lies at or below a later one. -/
theorem precedes_of_children {parent first later other : NodeId}
    (hparent : g.AtOrBelow parent root) (hchildren : Precedes (g.children parent) first later)
    (hid : g.AtOrBelow id first) (hother : g.AtOrBelow other later) :
    Precedes (g.walk root) id other := by
  refine List.Sublist.trans ?_ (walk_part_of_walk hparent).sublist
  have hsubtrees := hchildren.flatMap g.walk
  rw [List.flatMap_cons, List.flatMap_singleton] at hsubtrees
  rw [eq_walk_iff.mpr rfl parent]
  refine List.Sublist.cons parent (List.Sublist.trans ?_ hsubtrees)
  exact (singleton_sublist_walk hid).append (singleton_sublist_walk hother)

/-- A walk ends in every graph, after as many rounds as there are paths down from its root, and its
order is the only one in which each node stands before the subtrees of its children, from left to
right.  It meets each node once for each path that leads down to it.  Without shared children it
meets each node once, before all nodes below it, and what lies at or below a child before what lies
at or below a later one. -/
theorem walk_is_recursive_order (g : Graph) (root : NodeId) :
    g.WalkEnds (g.weight root) [root] (g.walk root) ∧
    (∀ order : NodeId → List NodeId,
      (∀ id, order id = id :: (g.children id).flatMap order) ↔ order = g.walk) ∧
    (∀ id, {path | g.descend root path = some id}.encard = (g.walk root).count id) ∧
    (g.Unshared root → (g.walk root).Nodup ∧
      (∀ above id, g.AtOrBelow above root → g.Below id above →
        Precedes (g.walk root) above id) ∧
      ∀ parent first later id other, g.AtOrBelow parent root →
        Precedes (g.children parent) first later → g.AtOrBelow id first →
        g.AtOrBelow other later → Precedes (g.walk root) id other) := by
  refine ⟨g.walkEnds_walk root, fun order => eq_walk_iff, g.encard_paths root,
    fun hunshared => ⟨?_, fun above id => precedes_of_below,
      fun parent first later id other => precedes_of_children⟩⟩
  rw [walk_eq_preorder]
  exact nodup_preorder hunshared

theorem walk_is_recursive_order_in_diamond :
    diamondGraph.WalkEnds 7 [0] [0, 1, 3, 2, 4, 5, 3] ∧
      {path | diamondGraph.descend 0 path = some 3}.encard = 2 ∧
      diamondGraph.Unshared 2 ∧ (diamondGraph.walk 2).Nodup ∧
      Precedes (diamondGraph.children 2) 4 3 ∧ Precedes (diamondGraph.walk 2) 5 3 := by
  have hrows : diamondGraph.ListsBelow [[1, 3, 2, 4, 5, 3], [3], [4, 5, 3], [], [5], []] := by
    decide +kernel
  have hunshared : diamondGraph.Unshared 2 := hrows.unshared (by decide +kernel) (by decide +kernel)
  have hweight : diamondGraph.weight 0 = 7 := by cbv
  have hwalk : diamondGraph.walk 0 = [0, 1, 3, 2, 4, 5, 3] := by cbv
  have hchildren : Precedes (diamondGraph.children 2) 4 3 := by decide +kernel
  have hbelow : diamondGraph.AtOrBelow 5 4 := .single (by decide +kernel)
  obtain ⟨hends, -, hcount, -⟩ := diamondGraph.walk_is_recursive_order 0
  obtain ⟨hnodup, -, horder⟩ := (diamondGraph.walk_is_recursive_order 2).2.2.2 hunshared
  have hthree := hcount 3
  rw [hwalk] at hends hthree
  rw [hweight] at hends
  exact ⟨hends, hthree, hunshared, hnodup, hchildren,
    horder 2 4 3 5 3 .refl hchildren hbelow .refl⟩

end Graph

end EditorBridge
