/-
Links to declarations.  The search for the nodes above a declaration follows the one way up to
the root and so meets the nearest one first.  A link leads from the span of the located node to
that of its declaration, each in its own file, and shows around the declaration the nearest node
above it that has a place; a declaration of another file, or with no such node above it, is shown
alone.
-/
import EditorBridge.Proofs.TokenAnswers
import Mathlib.Logic.Relation

namespace EditorBridge

/-- A range lies within itself. -/
theorem Range.holds_self {text : List CodePoint} {span : Span} {range : Range}
    (hrange : ofSpan text span = .ok range) (hspan : span.start ≤ span.stop) :
    range.Holds range :=
  holds_of_contains hrange hrange ⟨Int.le_refl _, Int.le_refl _⟩ hspan

namespace Graph

variable {g : Graph} {root target above : NodeId}

/-- Of the nodes above a node that have a place, the one below all others. -/
structure IsNearestAbove (g : Graph) (root target above : NodeId) : Prop where
  inside : g.AtOrBelow above root
  below : g.Below target above
  placed : (g.node above).isPlaced = true
  nearest : ∀ other, g.AtOrBelow other root → g.Below target other →
    (g.node other).isPlaced = true → g.AtOrBelow above other

/-- No node above a node has a place. -/
def StandsAlone (g : Graph) (root target : NodeId) : Prop :=
  ∀ above, g.AtOrBelow above root → g.Below target above → (g.node above).isPlaced = false

theorem IsNearestAbove.not_standsAlone (habove : g.IsNearestAbove root target above) :
    ¬g.StandsAlone root target := by
  intro hnone
  have hunplaced := hnone above habove.inside habove.below
  rw [habove.placed] at hunplaced
  cases hunplaced

theorem IsNearestAbove.eq {other : NodeId} (habove : g.IsNearestAbove root target above)
    (hother : g.IsNearestAbove root target other) : above = other := by
  have hdown := habove.nearest other hother.inside hother.below hother.placed
  have hup := hother.nearest above habove.inside habove.below habove.placed
  rcases Relation.reflTransGen_iff_eq_or_transGen.mp hdown with hsame | hbelow
  · exact hsame.symm
  · exact absurd (hbelow.trans_left hup) (g.not_below_self above)

/-- The first node with a place that the search meets is the nearest one above. -/
theorem isNearestAbove_of_find? (hunshared : g.Unshared root)
    (hfound : (g.ancestors root target).find? (fun id => (g.node id).isPlaced) = some above) :
    g.IsNearestAbove root target above := by
  obtain ⟨hplaced, nearer, farther, hpath, hnearer⟩ := List.find?_eq_some_iff_append.mp hfound
  obtain ⟨hinside, hbelow⟩ := (mem_ancestors_iff hunshared).mp (List.mem_of_find?_eq_some hfound)
  have horder := g.pairwise_ancestors root target
  rw [hpath] at horder
  have hfarther := (List.pairwise_cons.mp (List.pairwise_append.mp horder).2.1).1
  refine ⟨hinside, hbelow, hplaced, ?_⟩
  intro other hother hbelow hgiven
  have hpassed := (mem_ancestors_iff hunshared).mpr ⟨hother, hbelow⟩
  rw [hpath, List.mem_append, List.mem_cons] at hpassed
  -- what is passed before has no place, and what comes behind lies higher
  rcases hpassed with hpassed | rfl | hpassed
  · simpa [hgiven] using hnearer other hpassed
  · exact .refl
  · exact (hfarther other hpassed).atOrBelow

/-- A declaration is shown in the nearest node above it that has a place, or else alone. -/
theorem around_cases (hunshared : g.Unshared root) (target : NodeId) :
    g.IsNearestAbove root target (g.around root target) ∨
      g.around root target = target ∧ g.StandsAlone root target := by
  rcases hfound : (g.ancestors root target).find? fun id => (g.node id).isPlaced with _ | found
  · rw [around, hfound]
    refine Or.inr ⟨rfl, fun above habove hbelow => ?_⟩
    have hmem := (mem_ancestors_iff hunshared).mpr ⟨habove, hbelow⟩
    simpa using List.find?_eq_none.mp hfound above hmem
  · rw [around, hfound]
    exact Or.inl (isNearestAbove_of_find? hunshared hfound)

theorem range_of_span {id : NodeId} {span : Span} (hspan : (g.node id).span = some span)
    (text : List CodePoint) : g.range text id = Range.ofSpan text span := by
  rw [range, Node.range, hspan]

/-- The node that declares what a located node stands for: a name or a member by its own symbol,
a call by the symbol of what it calls. -/
inductive Declares (g : Graph) (location : Location) : NodeId → Prop where
  | named {symbol : SymbolId} {target : NodeId}
      (htag : (g.node location.node).tag ∈ [Tag.id, Tag.dotIndex, Tag.colonIndex])
      (hsymbol : location.symbol = some symbol) (hnode : (g.symbol symbol).node = some target) :
      Declares g location target
  | called {symbol : SymbolId} {target : NodeId}
      (htag : (g.node location.node).tag ∈ [Tag.call, Tag.callMethod])
      (hcallee : (g.nodeAttr location.node).callee = some symbol)
      (hnode : (g.symbol symbol).node = some target) : Declares g location target

theorem declaringNode?_eq_some_iff {location : Location} :
    g.declaringNode? location = some target ↔ g.Declares location target := by
  simp only [declaringNode?, Option.bind_eq_bind]
  constructor
  · intro hdeclared
    split at hdeclared
    next htag =>
        obtain ⟨symbol, hsymbol, hnode⟩ := Option.bind_eq_some_iff.mp hdeclared
        exact .named (by simpa [Tag.isIndex] using htag) hsymbol hnode
    next =>
        split at hdeclared
        next htag =>
            obtain ⟨symbol, hcallee, hnode⟩ := Option.bind_eq_some_iff.mp hdeclared
            exact .called (by simpa [Tag.isCall] using htag) hcallee hnode
        next => cases hdeclared
  · rintro (⟨htag, hsymbol, hnode⟩ | ⟨htag, hcallee, hnode⟩)
    · rw [if_pos (by simpa [Tag.isIndex] using htag), hsymbol]
      exact hnode
    · have hnamed : ∀ tag ∈ [Tag.call, Tag.callMethod],
          ¬(tag == Tag.id || Tag.isIndex tag) = true := by decide
      rw [if_neg (hnamed _ htag), if_pos (by simpa [Tag.isCall] using htag), hcallee]
      exact hnode

end Graph

namespace Tree

variable {tree : Tree} {location : Location} {text : List CodePoint} {uri : Text}
  {read : Text → Except Fault Text} {target : NodeId}

/-- A node is of the document: it names no file, or the document's own. -/
def IsOwn (tree : Tree) (uri : Text) (id : NodeId) : Prop :=
  ∀ src, (tree.graph.node id).src = some src → Uri.toPath uri = .ok (Path.ofText src)

/-- The file that a node is of, and its text: the document, or the file that the node names, read
under its own name. -/
inductive FileOf (tree : Tree) (uri : Text) (text : List CodePoint)
    (read : Text → Except Fault Text) (id : NodeId) : Text → List CodePoint → Prop where
  | document (hown : tree.IsOwn uri id) : FileOf tree uri text read id uri text
  | other {src other otherText : Text} {path : Path}
      (hsrc : (tree.graph.node id).src = some src) (hpath : Uri.toPath uri = .ok path)
      (hdiffers : Path.ofText src ≠ path) (hother : Uri.ofPath (Path.ofText src) = .ok other)
      (hread : read other = .ok otherText) :
      FileOf tree uri text read id other otherText.points

/-- What the link of a location is made of: a tree without shared children whose nodes lie inside
those above them, and spans that lie in their files, all of which can be measured. -/
structure Linkable (tree : Tree) (location : Location) (text : List CodePoint) (uri : Text)
    (read : Text → Except Fault Text) : Prop where
  unshared : tree.graph.Unshared tree.root
  nests : tree.graph.Nests tree.root
  measurable : Position.IsMeasurable text
  located : ∀ own, (tree.graph.node location.node).span = some own → own.Within text
  declared : ∀ target inner, tree.graph.Declares location target →
    (tree.graph.node target).span = some inner →
    (tree.graph.node location.node).isPlaced = true →
    ∃ fileUri fileText, tree.FileOf uri text read target fileUri fileText ∧
      inner.Within fileText ∧ Position.IsMeasurable fileText
  above : ∀ target above outer, tree.graph.Declares location target →
    tree.graph.AtOrBelow above tree.root → tree.graph.Below target above →
    (tree.graph.node above).span = some outer → outer.Within text

theorem destination_of_not_declares
    (hnone : ¬∃ target, tree.graph.Declares location target ∧
      (tree.graph.node target).isPlaced = true ∧
      (tree.graph.node location.node).isPlaced = true) :
    tree.destination location uri = .ok .nowhere := by
  rw [destination]
  split
  next => rfl
  next target htarget =>
      refine if_pos ?_
      by_contra hplaced
      simp only [Bool.or_eq_true, Bool.not_eq_true', not_or, Bool.not_eq_false] at hplaced
      exact hnone ⟨target, Graph.declaringNode?_eq_some_iff.mp htarget, hplaced⟩

section

variable (hdeclares : tree.graph.Declares location target)
  (htarget : (tree.graph.node target).isPlaced = true)
  (hlocated : (tree.graph.node location.node).isPlaced = true)
include hdeclares htarget hlocated

theorem destination_of_isOwn (hown : tree.IsOwn uri target) :
    tree.destination location uri = .ok (.here target) := by
  have hgiven := Graph.declaringNode?_eq_some_iff.mpr hdeclares
  simp only [destination, hgiven, htarget, hlocated, Bool.not_true, Bool.or_self,
    Bool.false_eq_true, if_false]
  split
  next => rfl
  next src hsrc =>
      rw [hown src hsrc]
      exact if_neg (by simp [Graph.liesElsewhere])

/-- A declaration of another file is looked for under the URI of that file. -/
theorem destination_of_elsewhere {src : Text} {path : Path}
    (hsrc : (tree.graph.node target).src = some src) (hpath : Uri.toPath uri = .ok path)
    (hdiffers : Path.ofText src ≠ path) :
    tree.destination location uri = ((Uri.ofPath (Path.ofText src)).mapError Fault.path).map
      fun other => .elsewhere other target := by
  have hgiven := Graph.declaringNode?_eq_some_iff.mpr hdeclares
  have helsewhere : Graph.liesElsewhere (some src) (some path) = true := by
    simpa [Graph.liesElsewhere] using hdiffers
  simp only [destination, hgiven, htarget, hlocated, Bool.not_true, Bool.or_self,
    Bool.false_eq_true, if_false, hsrc, hpath]
  exact (if_pos helsewhere).trans (bind_ok _ _)

theorem destination_of_differs {src other : Text} {path : Path}
    (hsrc : (tree.graph.node target).src = some src) (hpath : Uri.toPath uri = .ok path)
    (hdiffers : Path.ofText src ≠ path) (hother : Uri.ofPath (Path.ofText src) = .ok other) :
    tree.destination location uri = .ok (.elsewhere other target) := by
  rw [destination_of_elsewhere hdeclares htarget hlocated hsrc hpath hdiffers, hother]
  rfl

/-- A declaration with a file is not looked for from a document whose URI names none. -/
theorem destination_of_uri_error {src : Text} {cause : Uri.UriError}
    (hsrc : (tree.graph.node target).src = some src) (hpath : Uri.toPath uri = .error cause) :
    tree.destination location uri = .error (.uri cause) := by
  have hgiven := Graph.declaringNode?_eq_some_iff.mpr hdeclares
  simp only [destination, hgiven, htarget, hlocated, Bool.not_true, Bool.or_self,
    Bool.false_eq_true, if_false, hsrc, hpath]
  rfl

end

section

variable (hlinkable : tree.Linkable location text uri read)
  (hdeclares : tree.graph.Declares location target)
include hlinkable hdeclares

/-- The range that is shown around a declaration of the document. -/
theorem exists_enclosingRange {inner : Span} {selection : Range}
    (hinner : (tree.graph.node target).span = some inner) (hwithin : inner.Within text)
    (hselection : Range.ofSpan text inner = .ok selection) :
    ∃ range, tree.graph.enclosingRange (some tree.root) target text = .ok range ∧
      range.Holds selection ∧
      (∀ above outer, tree.graph.IsNearestAbove tree.root target above →
        (tree.graph.node above).span = some outer → range.Marks text outer) ∧
      (tree.graph.StandsAlone tree.root target → range = selection) := by
  rw [Graph.enclosingRange_eq]
  rcases Graph.around_cases hlinkable.unshared target with hnearest | ⟨haround, hnone⟩
  · obtain ⟨outer, houter, hrange⟩ := Graph.range_of_isPlaced hnearest.placed text
    have hinside := hlinkable.above target _ outer hdeclares hnearest.inside hnearest.below houter
    have hcontains := hlinkable.nests target _ inner outer hnearest.inside hnearest.below hinner
      houter
    obtain ⟨range, hgiven⟩ := Range.exists_ofSpan hlinkable.measurable hinside
    refine ⟨range, hrange.trans hgiven,
      Range.holds_of_contains hgiven hselection hcontains hwithin.2.1, ?_,
      fun hnone => absurd hnone hnearest.not_standsAlone⟩
    intro above span habove hspan
    obtain rfl := hnearest.eq habove
    obtain rfl := Option.some.inj (houter.symm.trans hspan)
    exact Range.marks_of_ofSpan hgiven hinside.2.1
  · rw [haround]
    refine ⟨selection, (Graph.range_of_span hinner text).trans hselection,
      Range.holds_self hselection hwithin.2.1,
      fun above _ habove => absurd hnone habove.not_standsAlone, fun _ => rfl⟩

end

/-- A link that leads to a declaration: from the span of the located node to that of the
declaration, each in its own file, with the nearest node above the declaration shown around it.
What is of another file, or has no such node above it, is shown alone. -/
structure LeadsTo (tree : Tree) (location : Location) (text : List CodePoint) (uri : Text)
    (read : Text → Except Fault Text) (link : LocationLink) (target : NodeId) : Prop where
  declares : tree.graph.Declares location target
  origin : ∃ own, (tree.graph.node location.node).span = some own ∧
    link.originSelectionRange.Marks text own
  selection : ∃ inner fileText, (tree.graph.node target).span = some inner ∧
    tree.FileOf uri text read target link.targetUri fileText ∧
    link.targetSelectionRange.Marks fileText inner
  holds : link.targetRange.Holds link.targetSelectionRange
  framed : ∀ above outer, tree.IsOwn uri target →
    tree.graph.IsNearestAbove tree.root target above →
    (tree.graph.node above).span = some outer → link.targetRange.Marks text outer
  alone : ¬tree.IsOwn uri target ∨ tree.graph.StandsAlone tree.root target →
    link.targetRange = link.targetSelectionRange

theorem link_of_ranges {targetUri : Text} {targetText : List CodePoint} {root : Option NodeId}
    {selection range origin : Range}
    (hselection : tree.graph.range targetText target = .ok selection)
    (hrange : tree.graph.enclosingRange root target targetText = .ok range)
    (horigin : tree.graph.range text location.node = .ok origin) :
    tree.link location text targetUri targetText root target =
      .ok ⟨targetUri, range, selection, origin⟩ := by
  rw [link, hselection, hrange, horigin]
  rfl

section

variable (hlinkable : tree.Linkable location text uri read)
  (hdeclares : tree.graph.Declares location target) {own inner : Span}
  (hown : (tree.graph.node location.node).span = some own)
  (hinner : (tree.graph.node target).span = some inner)
include hlinkable hdeclares hown hinner

/-- A declaration of the document is linked to, with what lies around it. -/
theorem exists_link_of_isOwn (hdocument : tree.IsOwn uri target) (hwithin : inner.Within text) :
    ∃ link, tree.definition location text uri read = .ok [link] ∧
      tree.LeadsTo location text uri read link target := by
  have hlocated := hlinkable.located own hown
  obtain ⟨origin, horigin⟩ := Range.exists_ofSpan hlinkable.measurable hlocated
  obtain ⟨selection, hselection⟩ := Range.exists_ofSpan hlinkable.measurable hwithin
  obtain ⟨range, hrange, hholds, hframed, halone⟩ :=
    exists_enclosingRange hlinkable hdeclares hinner hwithin hselection
  have hfound : tree.destination location uri = .ok (.here target) :=
    destination_of_isOwn hdeclares (Option.isSome_of_mem hinner) (Option.isSome_of_mem hown)
      hdocument
  refine ⟨⟨uri, range, selection, origin⟩, ?_, hdeclares,
    ⟨own, hown, Range.marks_of_ofSpan horigin hlocated.2.1⟩,
    ⟨inner, text, hinner, .document hdocument, Range.marks_of_ofSpan hselection hwithin.2.1⟩,
    hholds, fun above outer _ => hframed above outer, ?_⟩
  · rw [definition_of_here hfound,
      link_of_ranges ((Graph.range_of_span hinner text).trans hselection)
      hrange ((Graph.range_of_span hown text).trans horigin)]
    rfl
  · rintro (hother | hnone)
    · exact absurd hdocument hother
    · exact halone hnone

/-- A declaration of another file is linked to alone. -/
theorem exists_link_of_differs {src other otherText : Text} {path : Path}
    (hsrc : (tree.graph.node target).src = some src) (hpath : Uri.toPath uri = .ok path)
    (hdiffers : Path.ofText src ≠ path) (hother : Uri.ofPath (Path.ofText src) = .ok other)
    (hread : read other = .ok otherText) (hwithin : inner.Within otherText.points)
    (hmeasurable : Position.IsMeasurable otherText.points) :
    ∃ link, tree.definition location text uri read = .ok [link] ∧
      tree.LeadsTo location text uri read link target := by
  have hlocated := hlinkable.located own hown
  obtain ⟨origin, horigin⟩ := Range.exists_ofSpan hlinkable.measurable hlocated
  obtain ⟨selection, hselection⟩ := Range.exists_ofSpan hmeasurable hwithin
  have hgiven := (Graph.range_of_span hinner otherText.points).trans hselection
  have halone : tree.graph.enclosingRange none target otherText.points = .ok selection := hgiven
  have hfound : tree.destination location uri = .ok (.elsewhere other target) :=
    destination_of_differs hdeclares (Option.isSome_of_mem hinner) (Option.isSome_of_mem hown)
      hsrc hpath hdiffers hother
  have hforeign : ¬tree.IsOwn uri target := fun hdocument =>
    hdiffers (Except.ok.inj ((hdocument src hsrc).symm.trans hpath))
  refine ⟨⟨other, selection, selection, origin⟩, ?_, hdeclares,
    ⟨own, hown, Range.marks_of_ofSpan horigin hlocated.2.1⟩,
    ⟨inner, otherText.points, hinner, .other hsrc hpath hdiffers hother hread,
      Range.marks_of_ofSpan hselection hwithin.2.1⟩,
    Range.holds_self hselection hwithin.2.1,
    fun _ _ hdocument => absurd hdocument hforeign, fun _ => rfl⟩
  rw [definition_of_elsewhere hfound hread,
    link_of_ranges hgiven halone ((Graph.range_of_span hown text).trans horigin)]
  rfl

end

/-- A document that declares one name and uses four: its own, one of a library whose declaration
stands in its tree, one that is declared outside the tree, and one of a file that there cannot
be. -/
def linkTree : Tree where
  graph := (Graph.ofTables? #[] #[{ node := some 2 }, { node := some 5 }, { node := some 7 },
      { node := some 9 }]
    #[{ tag := Tag.block, span := some ⟨0, 15⟩, children := [1, 3, 4, 5, 6, 8, 9] },
      { tag := "VarDecl", span := some ⟨0, 7⟩, children := [2] },
      { tag := Tag.idDecl, span := some ⟨6, 7⟩, attr := .symbol 0, src := some "/main.nelua" },
      { tag := Tag.id, span := some ⟨8, 9⟩, attr := .symbol 0 },
      { tag := Tag.id, span := some ⟨10, 11⟩, attr := .symbol 1 },
      { tag := Tag.idDecl, span := some ⟨6, 7⟩, attr := .symbol 1, src := some "/lib.nelua" },
      { tag := Tag.id, span := some ⟨12, 13⟩, attr := .symbol 2 },
      { tag := Tag.idDecl, span := some ⟨0, 1⟩, attr := .symbol 2 },
      { tag := Tag.id, span := some ⟨14, 15⟩, attr := .symbol 3 },
      { tag := Tag.idDecl, span := some ⟨0, 1⟩, attr := .symbol 3, src := some "/\x00" }]
    .empty).get (by decide +kernel)
  root := 0

def linkText : List CodePoint := (Text.ofString "local f f g h k").points

/-- A reader that has the same text for every file. -/
def readLibrary (_ : Text) : Except Fault Text := .ok "local g = 'one'"

theorem unshared_linkTree : linkTree.graph.Unshared linkTree.root :=
  Graph.unshared_of_children (by decide +kernel) (by decide +kernel)

theorem linkable_linkTree {location : Location} (target : NodeId)
    (htarget : linkTree.graph.declaringNode? location = some target)
    (hfile : ∃ fileUri fileText, linkTree.FileOf "file:///main.nelua" linkText
        readLibrary target fileUri fileText ∧
      (∀ inner ∈ (linkTree.graph.node target).span, inner.Within fileText) ∧
      Position.IsMeasurable fileText) :
    linkTree.Linkable location linkText "file:///main.nelua" readLibrary := by
  have hrows : linkTree.graph.ListsBelow
      [[1, 2, 3, 4, 5, 6, 8, 9], [2], [], [], [], [], [], [], [], []] := by decide +kernel
  have hfits : ∀ id span, (linkTree.graph.node id).span = some span →
      span.Within linkText := by
    have hspans : ∀ id < linkTree.graph.nodes.size, ∀ span ∈ (linkTree.graph.node id).span,
        span.Within linkText := by decide +kernel
    exact fun id span hspan => hspans id (Graph.lt_size_of_span hspan) span hspan
  refine ⟨unshared_linkTree, hrows.nests (by decide +kernel), by decide +kernel,
    hfits location.node, fun other inner hdeclares hinner _ => ?_,
    fun _ above outer _ _ _ => hfits above outer⟩
  obtain rfl := Option.some.inj
    (htarget.symm.trans (Graph.declaringNode?_eq_some_iff.mpr hdeclares))
  obtain ⟨fileUri, fileText, hof, hwithin, hmeasurable⟩ := hfile
  exact ⟨fileUri, fileText, hof, hwithin inner hinner, hmeasurable⟩

/-- The declaration of the library, which its link shows alone. -/
theorem linkTree_library :
    linkTree.Linkable (linkTree.atToken 4) linkText "file:///main.nelua"
        readLibrary ∧
      linkTree.definition (linkTree.atToken 4) linkText "file:///main.nelua"
          readLibrary =
        .ok [⟨"file:///lib.nelua", ⟨⟨0, 6⟩, ⟨0, 7⟩⟩, ⟨⟨0, 6⟩, ⟨0, 7⟩⟩, ⟨⟨0, 10⟩, ⟨0, 11⟩⟩⟩] := by
  have hdeclared : linkTree.graph.declaringNode? (linkTree.atToken 4) = some 5 := by
    decide +kernel
  have hsrc : (linkTree.graph.node 5).src = some "/lib.nelua" := by decide +kernel
  have hpath : Uri.toPath "file:///main.nelua" = .ok (Path.ofText "/main.nelua") := by
    decide +kernel
  have hdiffers : Path.ofText "/lib.nelua" ≠ Path.ofText "/main.nelua" := by decide +kernel
  have hother : Uri.ofPath (Path.ofText "/lib.nelua") = .ok "file:///lib.nelua" := by
    decide +kernel
  have hread : readLibrary "file:///lib.nelua" = .ok "local g = 'one'" := rfl
  have hfound := destination_of_differs (Graph.declaringNode?_eq_some_iff.mp hdeclared)
    (by decide +kernel) (by decide +kernel) hsrc hpath hdiffers hother
  have hlink : linkTree.link (linkTree.atToken 4) linkText "file:///lib.nelua"
      (Text.ofString "local g = 'one'").points none 5 =
        .ok ⟨"file:///lib.nelua", ⟨⟨0, 6⟩, ⟨0, 7⟩⟩, ⟨⟨0, 6⟩, ⟨0, 7⟩⟩, ⟨⟨0, 10⟩, ⟨0, 11⟩⟩⟩ := by
    decide +kernel
  refine ⟨linkable_linkTree 5 hdeclared ⟨_, _, .other hsrc hpath hdiffers hother hread,
    by decide +kernel, by decide +kernel⟩, ?_⟩
  rw [definition_of_elsewhere hfound hread, hlink]
  rfl

theorem linkTree_outside :
    linkTree.Linkable (linkTree.atToken 6) linkText "file:///main.nelua"
        readLibrary ∧
      linkTree.definition (linkTree.atToken 6) linkText "file:///main.nelua"
          readLibrary =
        .ok [⟨"file:///main.nelua", ⟨⟨0, 0⟩, ⟨0, 1⟩⟩, ⟨⟨0, 0⟩, ⟨0, 1⟩⟩,
          ⟨⟨0, 12⟩, ⟨0, 13⟩⟩⟩] := by
  have hown : linkTree.IsOwn "file:///main.nelua" 7 := by
    intro src hsrc
    have hnone : (linkTree.graph.node 7).src = none := by decide +kernel
    cases hnone.symm.trans hsrc
  have hdeclared : linkTree.graph.declaringNode? (linkTree.atToken 6) = some 7 := by
    decide +kernel
  have hfound : linkTree.destination (linkTree.atToken 6) "file:///main.nelua" = .ok (.here 7) :=
    destination_of_isOwn (Graph.declaringNode?_eq_some_iff.mp hdeclared) (by decide +kernel)
      (by decide +kernel) hown
  have haround : linkTree.graph.around linkTree.root 7 = 7 := by cbv
  have hlink : linkTree.link (linkTree.atToken 6) linkText "file:///main.nelua" linkText
      (some linkTree.root) 7 =
        .ok ⟨"file:///main.nelua", ⟨⟨0, 0⟩, ⟨0, 1⟩⟩, ⟨⟨0, 0⟩, ⟨0, 1⟩⟩, ⟨⟨0, 12⟩, ⟨0, 13⟩⟩⟩ := by
    rw [link, Graph.enclosingRange_eq, haround]
    decide +kernel
  refine ⟨linkable_linkTree 7 hdeclared ⟨_, _, .document hown, by decide +kernel,
    by decide +kernel⟩, ?_⟩
  rw [definition_of_here hfound, hlink]
  rfl

theorem linkTree_misnamed :
    linkTree.definition (linkTree.atToken 4) linkText "file://[" readLibrary =
        .error (.uri .misplacedBrackets) ∧
      linkTree.definition (linkTree.atToken 8) linkText "file:///main.nelua"
        readLibrary = .error (.path .embeddedNul) := by
  constructor
  · have hdeclared : linkTree.graph.declaringNode? (linkTree.atToken 4) = some 5 := by
      decide +kernel
    have hsrc : (linkTree.graph.node 5).src = some "/lib.nelua" := by decide +kernel
    have hpath : Uri.toPath "file://[" = .error .misplacedBrackets := by decide +kernel
    rw [definition, destination_of_uri_error (Graph.declaringNode?_eq_some_iff.mp hdeclared)
      (by decide +kernel) (by decide +kernel) hsrc hpath]
    rfl
  · have hdeclared : linkTree.graph.declaringNode? (linkTree.atToken 8) = some 9 := by
      decide +kernel
    have hsrc : (linkTree.graph.node 9).src = some "/\x00" := by decide +kernel
    have hpath : Uri.toPath "file:///main.nelua" = .ok (Path.ofText "/main.nelua") := by
      decide +kernel
    have hother : Uri.ofPath (Path.ofText "/\x00") = .error .embeddedNul := by decide +kernel
    rw [definition, destination_of_elsewhere (Graph.declaringNode?_eq_some_iff.mp hdeclared)
      (by decide +kernel) (by decide +kernel) hsrc hpath (by decide +kernel), hother]
    rfl

end Tree

end EditorBridge
