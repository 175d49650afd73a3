/-
Walks through the nodes of a tree.  A walk visits a node, then the subtrees of its children
from left to right, so that all nodes below a node come behind it; when no node has two
parents, each node is visited once.  The search for the nodes above a node finds a way up to the
root, and without shared children all of them.
-/
import EditorBridge.Proofs.OutlineRanges
import Mathlib.Data.List.Nodup
import Mathlib.Logic.Relation

namespace EditorBridge

/-- What stands in a list of parts stands in one of them. -/
theorem exists_of_flatMap_eq {α β : Type} {part : α → List β} {items : List α}
    {front behind : List β} {b : β} (hitems : items.flatMap part = front ++ b :: behind) :
    ∃ item ∈ items, ∃ before after rest,
      part item = before ++ b :: after ∧ behind = after ++ rest := by
  induction items generalizing front with
  | nil => exact nomatch (List.append_eq_nil_iff.mp hitems.symm).2
  | cons item items ih =>
      rw [List.flatMap_cons] at hitems
      rcases List.append_eq_append_iff.mp hitems with ⟨more, -, hrest⟩ | ⟨more, hpart, hrest⟩
      · obtain ⟨other, hother, hsplit⟩ := ih hrest
        exact ⟨other, List.mem_cons_of_mem item hother, hsplit⟩
      · rcases more with _ | ⟨first, after⟩
        · have hnext : items.flatMap part = [] ++ b :: behind := hrest.symm
          obtain ⟨other, hother, hsplit⟩ := ih hnext
          exact ⟨other, List.mem_cons_of_mem item hother, hsplit⟩
        · obtain ⟨rfl, hbehind⟩ := List.cons.inj hrest
          exact ⟨item, List.mem_cons_self, front, after, _, hpart, hbehind⟩

namespace Graph

variable {g : Graph} {id above root target : NodeId}

/-- A node is another one or lies below it. -/
def AtOrBelow (g : Graph) : NodeId → NodeId → Prop :=
  Relation.ReflTransGen fun child parent => child ∈ g.children parent

theorem Below.atOrBelow (hid : g.Below id above) : g.AtOrBelow id above := hid.to_reflTransGen

/-- What lies below a node lies at or below one of its children. -/
theorem below_iff : g.Below id above ↔ ∃ child ∈ g.children above, g.AtOrBelow id child := by
  rw [Below, Relation.TransGen.tail'_iff]
  constructor
  · rintro ⟨child, hid, hchild⟩
    exact ⟨child, hchild, hid⟩
  · rintro ⟨child, hchild, hid⟩
    exact ⟨child, hid, hchild⟩

theorem atOrBelow_iff :
    g.AtOrBelow id above ↔ id = above ∨ ∃ child ∈ g.children above, g.AtOrBelow id child := by
  rw [← below_iff, AtOrBelow, Relation.reflTransGen_iff_eq_or_transGen, eq_comm]
  rfl

theorem preorder_eq (g : Graph) (id : NodeId) :
    g.preorder id = id :: (g.children id).flatMap g.preorder := by
  rw [preorder]
  simp

/-- A walk that begins with several nodes visits their subtrees one after another. -/
theorem walkFrom_eq_preorder (g : Graph) (waiting : List NodeId) :
    g.walkFrom waiting = waiting.flatMap g.preorder := by
  induction waiting using Graph.walkFrom.induct g with
  | case1 =>
      rw [walkFrom]
      rfl
  | case2 id waiting ih =>
      rw [walkFrom, ih, List.flatMap_append, List.flatMap_cons, preorder_eq g id,
        List.cons_append]

theorem walk_eq_preorder (g : Graph) (id : NodeId) : g.walk id = g.preorder id := by
  rw [walk, walkFrom_eq_preorder, List.flatMap_singleton]

theorem mem_preorder_iff : id ∈ g.preorder root ↔ g.AtOrBelow id root := by
  induction root using g.acyclic.induction with
  | _ root ih =>
      rw [preorder_eq, List.mem_cons, List.mem_flatMap, atOrBelow_iff]
      refine or_congr_right (exists_congr fun child => and_congr_right fun hchild => ?_)
      exact ih child hchild

/-- Wherever a walk meets a node, all nodes below it come later. -/
theorem mem_behind_of_below {front behind : List NodeId}
    (hwalk : g.preorder root = front ++ above :: behind) (hid : g.Below id above) :
    id ∈ behind := by
  induction root using g.acyclic.induction generalizing front behind with
  | _ root ih =>
      rw [preorder_eq] at hwalk
      rcases front with _ | ⟨first, front⟩
      · obtain ⟨rfl, rfl⟩ := List.cons.inj hwalk
        obtain ⟨child, hchild, hbelow⟩ := below_iff.mp hid
        exact List.mem_flatMap.mpr ⟨child, hchild, mem_preorder_iff.mpr hbelow⟩
      · obtain ⟨-, hwalk⟩ := List.cons.inj hwalk
        obtain ⟨child, hchild, before, after, rest, hsplit, rfl⟩ := exists_of_flatMap_eq hwalk
        exact List.mem_append_left rest (ih child hchild hsplit)

/-- No node of a tree is the child of two others, or twice of one. -/
structure Unshared (g : Graph) (root : NodeId) : Prop where
  parent : ∀ child above other, g.AtOrBelow above root → g.AtOrBelow other root →
    child ∈ g.children above → child ∈ g.children other → above = other
  once : ∀ above, g.AtOrBelow above root → (g.children above).Nodup

theorem Unshared.of_child (hunshared : g.Unshared root) {child : NodeId}
    (hchild : child ∈ g.children root) : g.Unshared child where
  parent id above other habove hother :=
    hunshared.parent id above other (habove.tail hchild) (hother.tail hchild)
  once above habove := hunshared.once above (habove.tail hchild)

/-- A node is the child of a node of the tree. -/
def ChildWithin (g : Graph) (root child parent : NodeId) : Prop :=
  child ∈ g.children parent ∧ g.AtOrBelow parent root

theorem pathWithin_iff (habove : g.AtOrBelow above root) :
    Relation.ReflTransGen (g.ChildWithin root) id above ↔ g.AtOrBelow id above := by
  constructor
  · intro hid
    exact hid.lift (fun id => id) fun _ _ hstep => hstep.1
  · intro hid
    induction hid using Relation.ReflTransGen.head_induction_on with
    | refl => exact .refl
    | head hstep hrest ih => exact .head ⟨hstep, hrest.trans habove⟩ ih

/-- Of two nodes above a common one, each is at or below the other. -/
theorem Unshared.total (hunshared : g.Unshared root) {other : NodeId}
    (habove : g.AtOrBelow above root) (hother : g.AtOrBelow other root)
    (hid : g.AtOrBelow id above) (hcommon : g.AtOrBelow id other) :
    g.AtOrBelow above other ∨ g.AtOrBelow other above := by
  have hunique : Relator.RightUnique (g.ChildWithin root) :=
    fun child p q hp hq => hunshared.parent child p q hp.2 hq.2 hp.1 hq.1
  exact (Relation.ReflTransGen.total_of_right_unique hunique ((pathWithin_iff habove).mpr hid)
    ((pathWithin_iff hother).mpr hcommon)).imp (pathWithin_iff hother).mp (pathWithin_iff habove).mp

/-- A child is not below another one. -/
theorem Unshared.eq_of_children (hunshared : g.Unshared root) {child other : NodeId}
    (hchild : child ∈ g.children root) (hother : other ∈ g.children root)
    (hbelow : g.AtOrBelow child other) : child = other := by
  rcases hbelow.cases_head with rfl | ⟨parent, hparent, hrest⟩
  · rfl
  · have hroot := hunshared.parent child parent root (hrest.tail hother) .refl hparent hchild
    rw [hroot] at hrest
    exact absurd (Relation.TransGen.tail' hrest hother) (g.not_below_self root)

/-- Without shared children each node is visited once. -/
theorem nodup_preorder (hunshared : g.Unshared root) : (g.preorder root).Nodup := by
  induction root using g.acyclic.induction with
  | _ root ih =>
      rw [preorder_eq, List.nodup_cons, List.nodup_flatMap]
      refine ⟨fun hroot => ?_, fun child hchild => ih child hchild (hunshared.of_child hchild), ?_⟩
      · obtain ⟨child, hchild, hmem⟩ := List.mem_flatMap.mp hroot
        have hbelow : g.Below root root := below_iff.mpr ⟨child, hchild, mem_preorder_iff.mp hmem⟩
        exact g.not_below_self root hbelow
      · refine (hunshared.once root .refl).imp_of_mem fun {child other} hchild hother hne => ?_
        intro id hid hcommon
        rcases hunshared.total (.single hchild) (.single hother) (mem_preorder_iff.mp hid)
          (mem_preorder_iff.mp hcommon) with hbelow | hbelow
        · exact hne (hunshared.eq_of_children hchild hother hbelow)
        · exact hne (hunshared.eq_of_children hother hchild hbelow).symm

/-- Without shared children no node is visited before one above it. -/
theorem pairwise_preorder (hunshared : g.Unshared root) :
    (g.preorder root).Pairwise fun first later => ¬g.Below first later := by
  rw [List.pairwise_iff_forall_sublist]
  intro first later hsub hbelow
  obtain ⟨front, rest, hwalk, hfirst, hlater⟩ := List.cons_sublist_iff.mp hsub
  obtain ⟨between, behind, rfl⟩ := List.append_of_mem (List.singleton_sublist.mp hlater)
  have hsplit := hwalk.trans (List.append_assoc front between (later :: behind)).symm
  have hbehind : first ∈ behind := mem_behind_of_below hsplit hbelow
  have hnodup := nodup_preorder hunshared
  rw [hwalk] at hnodup
  exact (List.nodup_append.mp hnodup).2.2 first hfirst first
    (List.mem_append_right between (List.mem_cons_of_mem later hbehind)) rfl

/-- The nodes on a way up to the root, nearest first. -/
inductive Route (g : Graph) (root : NodeId) : NodeId → List NodeId → Prop where
  | top : Route g root root []
  | up {child parent : NodeId} {path : List NodeId} (hchild : child ∈ g.children parent)
      (hpath : Route g root parent path) : Route g root child (parent :: path)

/-- A search that starts below a root, with the way up noted for each node, ends with the way up
from the node it looks for, or with nothing when it cannot reach that node. -/
theorem route_ancestorsFrom {waiting : List (NodeId × List NodeId)}
    (hnoted : ∀ entry ∈ waiting, g.Route root entry.1 entry.2) :
    g.Route root target (g.ancestorsFrom target waiting) ∨
      (∀ entry ∈ waiting, ¬g.AtOrBelow target entry.1) ∧
        g.ancestorsFrom target waiting = [] := by
  induction waiting using Graph.ancestorsFrom.induct g target with
  | case1 =>
      rw [ancestorsFrom]
      exact Or.inr ⟨List.forall_mem_nil _, rfl⟩
  | case2 path waiting =>
      rw [ancestorsFrom, if_pos rfl]
      exact Or.inl (hnoted _ List.mem_cons_self)
  | case3 id path waiting hne ih =>
      rw [ancestorsFrom, if_neg hne]
      have hnext : ∀ entry ∈ (g.children id).reverse.map (fun child => (child, id :: path)) ++
          waiting, g.Route root entry.1 entry.2 := by
        intro entry hentry
        rcases List.mem_append.mp hentry with hchild | hwaiting
        · obtain ⟨child, hmem, rfl⟩ := List.mem_map.mp hchild
          exact .up (List.mem_reverse.mp hmem) (hnoted _ List.mem_cons_self)
        · exact hnoted entry (List.mem_cons_of_mem _ hwaiting)
      rcases ih hnext with hroute | ⟨hunreached, hnone⟩
      · exact Or.inl hroute
      · obtain ⟨hchildren, hwaiting⟩ := List.forall_mem_append.mp hunreached
        refine Or.inr ⟨List.forall_mem_cons.mpr ⟨fun htarget => ?_, hwaiting⟩, hnone⟩
        rcases atOrBelow_iff.mp htarget with hsame | ⟨child, hchild, hbelow⟩
        · exact hne hsame.symm
        · exact hchildren (child, id :: path)
            (List.mem_map.mpr ⟨child, List.mem_reverse.mpr hchild, rfl⟩) hbelow

theorem route_ancestors (g : Graph) (root target : NodeId) :
    g.Route root target (g.ancestors root target) ∨
      ¬g.AtOrBelow target root ∧ g.ancestors root target = [] := by
  refine (route_ancestorsFrom (List.forall_mem_singleton.mpr .top)).imp_right fun h => ?_
  exact ⟨h.1 _ List.mem_cons_self, h.2⟩

theorem Route.atOrBelow_of_mem {path : List NodeId} (hroute : g.Route root target path) :
    g.AtOrBelow target root ∧ ∀ id ∈ path, g.AtOrBelow id root := by
  induction hroute with
  | top => exact ⟨.refl, List.forall_mem_nil _⟩
  | up hchild _ ih =>
      exact ⟨.head hchild ih.1, List.forall_mem_cons.mpr ih⟩

/-- Each node on the way up lies below all that follow. -/
theorem Route.pairwise {path : List NodeId} (hroute : g.Route root target path) :
    (target :: path).Pairwise g.Below := by
  induction hroute with
  | top => exact List.pairwise_singleton _ _
  | up hchild _ ih =>
      refine List.pairwise_cons.mpr ⟨fun id hid => ?_, ih⟩
      rcases List.mem_cons.mp hid with rfl | hid
      · exact .single hchild
      · exact .head hchild ((List.pairwise_cons.mp ih).1 id hid)

/-- Without shared children there is one way up, and every node above lies on it. -/
theorem Route.mem_of_below (hunshared : g.Unshared root) {path : List NodeId}
    (hroute : g.Route root target path) (hbelow : g.Below target above)
    (habove : g.AtOrBelow above root) : above ∈ path := by
  induction hroute with
  | top => exact absurd (hbelow.trans_left habove) (g.not_below_self root)
  | @up child parent path hchild hpath ih =>
      -- the first step up from the child can only lead to its one parent
      obtain ⟨other, hother, hrest⟩ := Relation.TransGen.head'_iff.mp hbelow
      obtain rfl : parent = other := hunshared.parent child parent other
        hpath.atOrBelow_of_mem.1 (hrest.trans habove) hchild hother
      rcases Relation.reflTransGen_iff_eq_or_transGen.mp hrest with rfl | hrest
      · exact List.mem_cons_self
      · exact List.mem_cons_of_mem parent (ih hrest)

theorem route_of_atOrBelow (hbelow : g.AtOrBelow target root) :
    g.Route root target (g.ancestors root target) :=
  (g.route_ancestors root target).resolve_right fun h => h.1 hbelow

theorem ancestors_of_not_atOrBelow (hout : ¬g.AtOrBelow target root) :
    g.ancestors root target = [] := by
  rcases g.route_ancestors root target with hroute | ⟨-, hnone⟩
  · exact absurd hroute.atOrBelow_of_mem.1 hout
  · exact hnone

/-- Each node that the search finds lies below all that follow. -/
theorem pairwise_ancestors (g : Graph) (root target : NodeId) :
    (g.ancestors root target).Pairwise g.Below := by
  rcases g.route_ancestors root target with hroute | ⟨-, hnone⟩
  · exact (List.pairwise_cons.mp hroute.pairwise).2
  · rw [hnone]
    exact List.Pairwise.nil

theorem below_of_mem_ancestors (habove : above ∈ g.ancestors root target) :
    g.Below target above := by
  rcases g.route_ancestors root target with hroute | ⟨-, hnone⟩
  · exact (List.pairwise_cons.mp hroute.pairwise).1 above habove
  · rw [hnone] at habove
    exact nomatch habove

/-- Without shared children the search finds all nodes above. -/
theorem mem_ancestors_iff (hunshared : g.Unshared root) :
    id ∈ g.ancestors root target ↔ g.AtOrBelow id root ∧ g.Below target id := by
  constructor
  · intro hid
    rcases g.route_ancestors root target with hroute | ⟨-, hnone⟩
    · exact ⟨hroute.atOrBelow_of_mem.2 id hid, below_of_mem_ancestors hid⟩
    · rw [hnone] at hid
      exact nomatch hid
  · rintro ⟨hinside, hbelow⟩
    have hreached : g.AtOrBelow target root := hbelow.atOrBelow.trans hinside
    exact (route_of_atOrBelow hreached).mem_of_below hunshared hbelow hinside

end Graph

end EditorBridge
