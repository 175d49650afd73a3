/-
The selection ranges of an outline.  An entry shows the range of a node and, inside it, that
of the name: a function holds its name, what lies around a declaration holds it, and a field
is its own range.  Spans that lie one inside the other keep this order as ranges of the text.
-/
import EditorBridge.Proofs.Decimal
import EditorBridge.Proofs.Innermost
import Mathlib.Logic.Relation

namespace EditorBridge

namespace Range

/-- The other range begins and ends within the range. -/
def Holds (range selection : Range) : Prop :=
  range.start ≤ selection.start ∧ selection.start ≤ selection.stop ∧
    selection.stop ≤ range.stop

/-- Offsets that follow each other have positions that follow each other. -/
theorem place_le {text : List CodePoint} {first later : Int} {p q : Position}
    (hp : Position.place text first = .ok p) (hq : Position.place text later = .ok q)
    (hle : first ≤ later) : p ≤ q := by
  obtain ⟨m, rfl, -, -, rfl, -⟩ := (Position.place_eq_ok_iff _ _ _).mp hp
  obtain ⟨n, rfl, hn, -, rfl, -⟩ := (Position.place_eq_ok_iff _ _ _).mp hq
  exact Position.behind_take_le (by omega) hn

theorem holds_of_contains {text : List CodePoint} {outer inner : Span} {range selection : Range}
    (hrange : ofSpan text outer = .ok range) (hselection : ofSpan text inner = .ok selection)
    (hcontains : outer.Contains inner) (hinner : inner.start ≤ inner.stop) :
    range.Holds selection := by
  obtain ⟨hstart, hstop⟩ := (ofSpan_eq_ok_iff text outer range).mp hrange
  obtain ⟨hfirst, hlast⟩ := (ofSpan_eq_ok_iff text inner selection).mp hselection
  exact ⟨place_le hstart hfirst hcontains.1, place_le hfirst hlast hinner,
    place_le hlast hstop hcontains.2⟩

end Range

namespace DocumentSymbol

/-- The range and the selection range of an entry, or of one below it. -/
inductive Pairs : DocumentSymbol → Range → Range → Prop where
  | own {name detail : Text} {kind : SymbolKind} {range selection : Range}
      {children : Option (List DocumentSymbol)} :
      Pairs (.mk name detail kind range selection children) range selection
  | inner {name detail : Text} {kind : SymbolKind} {range selection : Range}
      {children : List DocumentSymbol} {child : DocumentSymbol} {outer shown : Range}
      (hchild : child ∈ children) (hshown : Pairs child outer shown) :
      Pairs (.mk name detail kind range selection (some children)) outer shown

/-- At every depth the selection range lies inside the range. -/
def IsFramed (entry : DocumentSymbol) : Prop :=
  ∀ range selection, entry.Pairs range selection → range.Holds selection

theorem isFramed_mk {name detail : Text} {kind : SymbolKind} {range selection : Range}
    {children : Option (List DocumentSymbol)} (hrange : range.Holds selection)
    (hchildren : ∀ child ∈ children.getD [], child.IsFramed) :
    (mk name detail kind range selection children).IsFramed := by
  intro outer shown hshown
  cases hshown with
  | own => exact hrange
  | inner hchild hinner => exact hchildren _ hchild outer shown hinner

end DocumentSymbol

namespace Graph

variable {g : Graph} {text : List CodePoint}

/-- All nodes that have a place lie in the text. -/
def Fits (g : Graph) (text : List CodePoint) : Prop :=
  ∀ id span, (g.node id).span = some span → span.Within text

theorem atOrBelow_around (g : Graph) (block id : NodeId) : g.AtOrBelow id (g.around block id) := by
  rw [around]
  rcases habove : (g.ancestors block id).find? fun above => (g.node above).isPlaced with _ | above
  · exact .refl
  · exact (below_of_mem_ancestors (List.mem_of_find?_eq_some habove)).atOrBelow

theorem name_below {scope : ScopeId} {shown : FunctionNode}
    (hshown : g.shownFunction? scope = some shown) : g.Below shown.name shown.node := by
  simp only [shownFunction?, Option.bind_eq_bind, Option.bind_eq_some_iff] at hshown
  obtain ⟨node, -, name, hname, hgiven⟩ := hshown
  split at hgiven
  · obtain rfl := Option.some.inj hgiven
    exact .single (List.mem_of_mem_head? hname)
  · cases hgiven

theorem ofSpan_of_range {id : NodeId} {range : Range} (hrange : g.range text id = .ok range) :
    ∃ span, (g.node id).span = some span ∧ Range.ofSpan text span = .ok range := by
  rw [Graph.range, Node.range] at hrange
  rcases hspan : (g.node id).span with _ | span
  · rw [hspan] at hrange
    cases hrange
  · rw [hspan] at hrange
    exact ⟨span, rfl, hrange⟩

section

variable (hfits : g.Fits text) (hnests : ∀ top, g.Nests top)
include hfits hnests

/-- The range of a node holds those of the nodes below it. -/
theorem holds_of_atOrBelow {id above : NodeId} {range selection : Range}
    (hid : g.AtOrBelow id above) (hrange : g.range text above = .ok range)
    (hselection : g.range text id = .ok selection) : range.Holds selection := by
  obtain ⟨outer, houter, hgiven⟩ := ofSpan_of_range hrange
  obtain ⟨inner, hinner, hshown⟩ := ofSpan_of_range hselection
  refine Range.holds_of_contains hgiven hshown ?_ (hfits id inner hinner).2.1
  rcases Relation.reflTransGen_iff_eq_or_transGen.mp hid with rfl | hbelow
  · obtain rfl := Option.some.inj (houter.symm.trans hinner)
    exact ⟨Int.le_refl _, Int.le_refl _⟩
  · exact hnests above id above inner outer .refl hbelow hinner houter

theorem isFramed_of_fieldEntries {tag : String} {detail : NodeId → Except Fault Text}
    {ids : List NodeId}
    {entries : List DocumentSymbol} (hentries : g.fieldEntries text tag detail ids = .ok entries) :
    ∀ entry ∈ entries, entry.IsFramed := by
  obtain ⟨fields, hfields, rfl⟩ := map_eq_ok_iff.mp hentries
  intro entry hentry
  obtain ⟨field, hfield, hshown⟩ := List.mem_filterMap.mp hentry
  obtain rfl : field = some entry := hshown
  obtain ⟨id, -, hgiven⟩ := exists_of_mem_mapM hfields _ hfield
  rw [fieldSymbol?] at hgiven
  split at hgiven
  · cases hgiven
  · obtain ⟨range, hrange, hgiven⟩ := bind_eq_ok_iff.mp hgiven
    obtain ⟨shown, -, hgiven⟩ := bind_eq_ok_iff.mp hgiven
    obtain rfl := Option.some.inj (Except.ok.inj hgiven)
    have hown := mapError_eq_ok_iff.mp hrange
    exact DocumentSymbol.isFramed_mk (holds_of_atOrBelow hfits hnests .refl hown hown)
      (List.forall_mem_nil _)

theorem isFramed_of_nameContents {id : NodeId} {symbol : Symbol}
    {contents : SymbolKind × Text × List DocumentSymbol}
    (hcontents : g.nameContents text symbol id = .ok contents) :
    ∀ entry ∈ contents.2.2, entry.IsFramed := by
  rw [nameContents] at hcontents
  split at hcontents
  · obtain rfl := Except.ok.inj hcontents
    exact List.forall_mem_nil _
  · dsimp only at hcontents
    split at hcontents
    · obtain ⟨fields, hfields, rfl⟩ := map_eq_ok_iff.mp hcontents
      exact isFramed_of_fieldEntries hfits hnests hfields
    · split at hcontents
      · obtain ⟨fields, hfields, rfl⟩ := map_eq_ok_iff.mp hcontents
        exact isFramed_of_fieldEntries hfits hnests hfields
      · obtain rfl := Except.ok.inj hcontents
        exact List.forall_mem_nil _

theorem isFramed_of_nameEntry {block id : NodeId} {name : Text} {symbol : Symbol}
    {entry : DocumentSymbol} (hentry : g.nameEntry text block name symbol id = .ok entry) :
    entry.IsFramed := by
  rw [nameEntry, g.enclosingRange_eq] at hentry
  obtain ⟨contents, hcontents, hentry⟩ := bind_eq_ok_iff.mp hentry
  obtain ⟨range, hrange, hentry⟩ := bind_eq_ok_iff.mp hentry
  obtain ⟨selection, hselection, hentry⟩ := bind_eq_ok_iff.mp hentry
  obtain rfl := Except.ok.inj hentry
  exact DocumentSymbol.isFramed_mk
    (holds_of_atOrBelow hfits hnests (g.atOrBelow_around block id) (mapError_eq_ok_iff.mp hrange)
      (mapError_eq_ok_iff.mp hselection))
    (isFramed_of_nameContents hfits hnests hcontents)

theorem isFramed_of_functionEntry {src : Option Path} {visited : List ScopeId}
    {scope : ScopeId} {shown : FunctionNode} {entry : DocumentSymbol}
    (hshown : g.shownFunction? scope = some shown)
    (hbody : ∀ body entries, shown.body = some body →
      g.scopeEntries text src visited body = .ok entries → ∀ inner ∈ entries, inner.IsFramed)
    (hentry : g.functionEntry text src visited shown = .ok entry) : entry.IsFramed := by
  obtain ⟨range, hrange, hentry⟩ := bind_eq_ok_iff.mp hentry
  obtain ⟨selection, hselection, hentry⟩ := bind_eq_ok_iff.mp hentry
  obtain ⟨children, hchildren, hentry⟩ := bind_eq_ok_iff.mp hentry
  obtain rfl := Except.ok.inj hentry
  refine DocumentSymbol.isFramed_mk (holds_of_atOrBelow hfits hnests
    (name_below hshown).atOrBelow (mapError_eq_ok_iff.mp hrange)
    (mapError_eq_ok_iff.mp hselection)) ?_
  rcases hgiven : shown.body with _ | body
  · rw [hgiven] at hchildren
    obtain rfl := Except.ok.inj hchildren
    exact List.forall_mem_nil _
  · rw [hgiven] at hchildren
    exact hbody body children hgiven hchildren

/-- In all entries of an outline the selection range lies inside the range.  The induction
follows the scopes from the outside in. -/
theorem isFramed_of_scopeEntries {src : Option Path} {visited : List ScopeId} {block : NodeId}
    {entries : List DocumentSymbol}
    (hentries : g.scopeEntries text src visited block = .ok entries) :
    ∀ entry ∈ entries, entry.IsFramed := by
  induction visited, block using Graph.scopeEntries.induct g generalizing entries with
  | case1 visited block hscope =>
      rw [scopeEntries] at hentries
      split at hentries
      next =>
          obtain rfl := Except.ok.inj hentries
          exact List.forall_mem_nil _
      next found hfound => cases hscope.symm.trans hfound
  | case2 visited block scope hscope hfound =>
      rw [scopeEntries] at hentries
      split at hentries
      next hnone => cases hscope.symm.trans hnone
      next other hother =>
          obtain rfl := Option.some.inj (hscope.symm.trans hother)
          rw [dif_pos hfound] at hentries
          cases hentries
  | case3 visited block scope hscope hfound ih =>
      rw [scopeEntries_of_scope hscope hfound] at hentries
      obtain ⟨functions, hfunctions, hentries⟩ := bind_eq_ok_iff.mp hentries
      obtain ⟨names, hnames, hentries⟩ := bind_eq_ok_iff.mp hentries
      obtain rfl := Except.ok.inj hentries
      intro entry hentry
      rcases List.mem_append.mp hentry with hentry | hentry
      · obtain ⟨shown, hshown, hgiven⟩ := exists_of_mem_mapM hfunctions entry hentry
        obtain ⟨inner, -, hfunction⟩ := List.mem_filterMap.mp hshown
        exact isFramed_of_functionEntry hfits hnests hfunction
          (fun body children _ hchildren => ih body hchildren) hgiven
      · obtain ⟨shown, -, hgiven⟩ := exists_of_mem_mapM hnames entry hentry
        exact isFramed_of_nameEntry hfits hnests hgiven

end

end Graph

namespace Tree

/-- When all nodes lie in the text and inside those above them, an outline is given exactly when
all the values that it shows can be written, and in each of its entries, at every depth, the
selection range lies inside the range. -/
theorem outline_selects_inside {tree : Tree} {text : List CodePoint}
    (hfits : tree.graph.Fits text) (hnests : ∀ top, tree.graph.Nests top)
    (htext : Position.IsMeasurable text) (hnest : tree.graph.ScopesNest) :
    ((∃ entries, tree.outline text = .ok entries) ↔ tree.WritesValues) ∧
    ∀ entries, tree.outline text = .ok entries →
      ∀ entry ∈ entries, ∀ range selection, entry.Pairs range selection →
        range.start ≤ selection.start ∧ selection.start ≤ selection.stop ∧
          selection.stop ≤ range.stop := by
  have hplaced : ∀ id, tree.Takes id → ∃ range, tree.graph.range text id = .ok range := by
    intro id htakes
    obtain ⟨span, hspan, hrange⟩ :=
      Graph.range_of_isPlaced (Graph.isPlaced_of_takes htakes) text
    rw [hrange]
    exact Range.exists_ofSpan htext (hfits id span hspan)
  have hgives := (Graph.restsOn_scopeEntries hnest text tree.source [] tree.root
    (List.forall_mem_nil _)).gives
  rw [forall_met_iff] at hgives
  exact ⟨hgives.trans (and_iff_right hplaced), fun entries hentries =>
    Graph.isFramed_of_scopeEntries hfits hnests hentries⟩

theorem fits_of_forall_spans {g : Graph} {text : List CodePoint}
    (h : ∀ id < g.nodes.size, ∀ span ∈ (g.node id).span, span.Within text) : g.Fits text :=
  fun id span hspan => h id (Graph.lt_size_of_span hspan) span hspan

theorem outline_selects_inside_nested :
    let text := Text.glyphs "local function f() local y end".toList
    nestedTree.graph.Fits text ∧ (∀ top, nestedTree.graph.Nests top) ∧
      Position.IsMeasurable text ∧ nestedTree.graph.ScopesNest ∧
      ∃ entries, nestedTree.outline text = .ok entries ∧
        ∀ entry ∈ entries, ∀ range selection, entry.Pairs range selection →
          range.start ≤ selection.start ∧ selection.start ≤ selection.stop ∧
            selection.stop ≤ range.stop := by
  intro text
  have hrows : nestedTree.graph.ListsBelow [[1, 2, 3, 4], [2, 3, 4], [], [4], []] := by
    decide +kernel
  have hfits : nestedTree.graph.Fits text := fits_of_forall_spans (by decide +kernel)
  have hnests : ∀ top, nestedTree.graph.Nests top := fun _ => hrows.nests (by decide +kernel)
  have htext : Position.IsMeasurable text := by decide +kernel
  have hnest : nestedTree.graph.ScopesNest := Graph.scopesNest_of_children (by decide +kernel)
  obtain ⟨hgives, hframed⟩ := outline_selects_inside hfits hnests htext hnest
  obtain ⟨entries, hentries⟩ := hgives.mpr (writesValues_of_forall (by decide +kernel))
  exact ⟨hfits, hnests, htext, hnest, entries, hentries, hframed entries hentries⟩

/-- A document that names an enumeration of one member, which has this value. -/
def countingTree (value : Int) : Tree where
  graph := (Graph.ofTables?
    #[{ kind := .type, name := "type" }, { kind := .enum, name := "E", node := some 2 }]
    #[{ type := some 0, value := some 1, node := some 1 }]
    #[{ tag := Tag.block, span := some ⟨0, 18⟩, children := [1, 2], src := some "/a.nelua" },
      { tag := Tag.idDecl, span := some ⟨6, 7⟩, attr := .symbol 0 },
      { tag := Tag.enumType, span := some ⟨11, 18⟩, children := [3] },
      { tag := Tag.enumField, span := some ⟨16, 17⟩, name := some "A",
        attr := .own { const := some (.int value) } }]
    ((ScopeForest.empty.push (some 0) none).declare 0 "E" 0)).get (by cbv)
  root := 0

/-- The text of that document. -/
def countingText : List CodePoint := Text.glyphs "local E = @enum\x7bA\x7d".toList

/-- A value that cannot be written has no entry. -/
theorem fieldSymbol?_countingTree {value : Int} (hvalue : ¬Text.IsConvertible value.natAbs) :
    (countingTree value).graph.fieldSymbol? countingText Tag.enumField
      (countingTree value).graph.enumFieldDetail 3 = .error .unwritable := by
  have hshown : (((countingTree value).graph.node 3).tag != Tag.enumField ||
      !((countingTree value).graph.node 3).isPlaced) = false := by cbv
  have hspan : ((countingTree value).graph.node 3).span = some ⟨16, 17⟩ := by cbv
  have hofSpan : Range.ofSpan countingText ⟨16, 17⟩ = .ok ⟨⟨0, 16⟩, ⟨0, 17⟩⟩ := by decide +kernel
  have hrange : ((countingTree value).graph.node 3).range countingText =
      .ok ⟨⟨0, 16⟩, ⟨0, 17⟩⟩ := by
    simp only [Node.range, hspan, hofSpan]
  have hconst : (countingTree value).graph.enumFieldConst? 3 = some (.int value) := by cbv
  simp only [Graph.fieldSymbol?, hshown, hrange, Graph.enumFieldDetail, hconst, Constant.text?,
    Text.numeral?, if_neg hvalue, Option.map_none]
  rfl

theorem outline_countingTree {value : Int} (hvalue : ¬Text.IsConvertible value.natAbs) :
    (countingTree value).outline countingText = .error .unwritable := by
  have hentry : (countingTree value).graph.nameEntry countingText 0 "E"
      ((countingTree value).graph.symbol 0) 1 = .error .unwritable := by
    have hexpr : (countingTree value).graph.typeExpr? 1 = some 2 := by cbv
    have htag : ((countingTree value).graph.node 2).tag = Tag.enumType := by cbv
    have hchildren : (countingTree value).graph.children 2 = [3] := by cbv
    simp only [Graph.nameEntry, Graph.nameContents, hexpr, htag, hchildren, Graph.fieldEntries,
      List.mapM_cons, fieldSymbol?_countingTree hvalue]
    rfl
  have hscope : (countingTree value).graph.scopeOf? 0 = some 0 := by cbv
  have hfunctions : (countingTree value).graph.shownFunctions 0 = [] := by cbv
  have hnames : (countingTree value).graph.shownNames (countingTree value).source 0 =
      [⟨"E", 0, 1⟩] := by
    have hsymbols : ((countingTree value).graph.scopes.scope 0).symbols.entries =
        [(("E" : Text), 0)] := by cbv
    have hshown : (countingTree value).graph.shownName? (countingTree value).source "E" 0 =
        some ⟨"E", 0, 1⟩ := by cbv
    simp only [Graph.shownNames, hsymbols, List.mergeSort_singleton, List.filterMap_cons, hshown,
      List.filterMap_nil]
  have hentries : (countingTree value).graph.scopeEntries countingText
      (countingTree value).source [] 0 = .error .unwritable := by
    have hvisited : ¬([] : List ScopeId).contains 0 = true := Bool.false_ne_true
    rw [Graph.scopeEntries_of_scope hscope hvisited, hfunctions, hnames, List.mapM_cons, hentry]
    rfl
  exact hentries

/-- A value of one digit more than are written. -/
def longValue : Nat := Number.tenTo Text.maxNumeralDigits

/-- Not every outline is given when all nodes lie in the text and inside those above them: the
value of a member may have more digits than are written. -/
theorem long_value_ends_outline :
    (countingTree longValue).graph.Fits countingText ∧
      (∀ top, (countingTree longValue).graph.Nests top) ∧
      Position.IsMeasurable countingText ∧ (countingTree longValue).graph.ScopesNest ∧
      (countingTree longValue).outline countingText = .error .unwritable := by
  have hrows : (countingTree longValue).graph.ListsBelow [[1, 2, 3], [], [3], []] := by
    decide +kernel
  have hfits : (countingTree longValue).graph.Fits countingText :=
    fits_of_forall_spans (by decide +kernel)
  have hnests : ∀ top, (countingTree longValue).graph.Nests top :=
    fun _ => hrows.nests (by decide +kernel)
  have hnest : (countingTree longValue).graph.ScopesNest :=
    Graph.scopesNest_of_children (by decide +kernel)
  have hlong : ¬Text.IsConvertible (longValue : Int).natAbs := by
    rw [Int.natAbs_natCast, Text.isConvertible_iff, longValue]
    exact Nat.lt_irrefl _
  exact ⟨hfits, hnests, by decide +kernel, hnest, outline_countingTree hlong⟩

end Tree

end EditorBridge
