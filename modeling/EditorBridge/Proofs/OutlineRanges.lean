/-
The ranges of an outline.  An outline rests on the ranges of some nodes: those of the
functions and names it shows, of the fields of records and enumerations, and of what lies
around a name.  It rests on the values of the members of enumerations as well.  It is given
exactly when all of these nodes have ranges in the text and all of these values can be
written, and shows no other ranges.
-/
import EditorBridge.Outline
import EditorBridge.Proofs.Ranges
import Mathlib.Order.RelClasses

namespace EditorBridge

/-- The ranges of an entry and of all entries below it. -/
inductive DocumentSymbol.Shows : DocumentSymbol → Range → Prop where
  | range {name detail : Text} {kind : SymbolKind} {range selection : Range}
      {children : Option (List DocumentSymbol)} :
      Shows (.mk name detail kind range selection children) range
  | selection {name detail : Text} {kind : SymbolKind} {range selection : Range}
      {children : Option (List DocumentSymbol)} :
      Shows (.mk name detail kind range selection children) selection
  | inner {name detail : Text} {kind : SymbolKind} {range selection shown : Range}
      {children : List DocumentSymbol} {child : DocumentSymbol} (hchild : child ∈ children)
      (hshown : Shows child shown) :
      Shows (.mk name detail kind range selection (some children)) shown

namespace Graph

/-- What an outline rests on: the range of a node, or the value of a member. -/
inductive Need where
  | range (id : NodeId)
  | value (id : NodeId)

/-- The value of a member, when it is an integer, is not too long to be written. -/
def WritesValue (g : Graph) (id : NodeId) : Prop :=
  ∀ n, g.enumFieldConst? id = some (.int n) → Text.IsConvertible n.natAbs

instance (g : Graph) (id : NodeId) : Decidable (g.WritesValue id) :=
  match h : g.enumFieldConst? id with
  | some (.int n) =>
      decidable_of_iff (Text.IsConvertible n.natAbs) (by simp [WritesValue, h])
  | some (.float _) | some (.str _) | some (.bool _) | none => isTrue (by simp [WritesValue, h])

def Need.Met (g : Graph) (text : List CodePoint) : Need → Prop
  | .range id => ∃ range, g.range text id = .ok range
  | .value id => g.WritesValue id

variable {α β ε η : Type} {g : Graph} {text : List CodePoint} {needs : Need → Prop}

/-- Work that rests on ranges and values of some nodes: it gives a value exactly when all of
them can be had, and this much is known of the value. -/
structure RestsOn (g : Graph) (text : List CodePoint) (needs : Need → Prop) (known : α → Prop)
    (work : Except ε α) : Prop where
  gives : (∃ value, work = .ok value) ↔ ∀ need, needs need → need.Met g text
  knows : ∀ value, work = .ok value → known value

namespace RestsOn

theorem ok {known : α → Prop} {value : α} (hvalue : known value) :
    g.RestsOn text (fun _ => False) known (.ok value : Except ε α) where
  gives := iff_of_true ⟨value, rfl⟩ fun _ hneed => hneed.elim
  knows := by
    intro other h
    exact Except.ok.inj h ▸ hvalue

theorem range (g : Graph) (text : List CodePoint) (id : NodeId) :
    g.RestsOn text (· = .range id) (fun range => g.range text id = .ok range)
      (g.range text id) where
  gives := by simp only [forall_eq, Need.Met]
  knows _ hrange := hrange

theorem value (g : Graph) (text : List CodePoint) (id : NodeId) :
    g.RestsOn text (· = .value id) (fun _ => True) (g.enumFieldDetail id) where
  gives := by
    simp only [forall_eq, Need.Met, WritesValue, enumFieldDetail]
    rcases g.enumFieldConst? id with _ | const
    · simp
    · cases const with
      | int n =>
          by_cases hn : Text.IsConvertible n.natAbs
          · simp [Constant.text?, Text.numeral?, hn]
          · simp [Constant.text?, Text.numeral?, hn]
      | float x => simp [Constant.text?]
      | str s => simp [Constant.text?]
      | bool b => simp [Constant.text?]
  knows _ _ := trivial

theorem mapError {known : α → Prop} {work : Except ε α} (hwork : g.RestsOn text needs known work)
    (cause : ε → η) : g.RestsOn text needs known (work.mapError cause) where
  gives := by simp only [mapError_eq_ok_iff, hwork.gives]
  knows value h := hwork.knows value (mapError_eq_ok_iff.mp h)

theorem map {known : α → Prop} {other : β → Prop} {work : Except ε α}
    (hwork : g.RestsOn text needs known work) {change : α → β}
    (hchange : ∀ value, known value → other (change value)) :
    g.RestsOn text needs other (work.map change) where
  gives := by
    rw [← hwork.gives]
    cases work with
    | error e => simp [Except.map]
    | ok value => simp [Except.map]
  knows := by
    intro value h
    cases work with
    | error e => exact nomatch h
    | ok given => exact Except.ok.inj h ▸ hchange given (hwork.knows given rfl)

/-- Work in two parts rests on what both rest on. -/
theorem bind {more : Need → Prop} {known : α → Prop} {other : β → Prop} {work : Except ε α}
    {next : α → Except ε β} (hwork : g.RestsOn text needs known work)
    (hnext : ∀ value, known value → g.RestsOn text more other (next value)) :
    g.RestsOn text (fun need => needs need ∨ more need) other (work >>= next) := by
  rcases work with e | value
  · have hnone : ¬∀ need, needs need → need.Met g text := by
      rw [← hwork.gives]
      exact fun ⟨_, h⟩ => nomatch h
    refine ⟨iff_of_false (fun ⟨_, h⟩ => nomatch h) ?_, fun _ h => nomatch h⟩
    exact fun hneeds => hnone fun need hneed => hneeds need (Or.inl hneed)
  · have hrest := hnext value (hwork.knows value rfl)
    have hfirst := hwork.gives.mp ⟨value, rfl⟩
    refine ⟨?_, hrest.knows⟩
    simp only [or_imp, forall_and]
    exact hrest.gives.trans (and_iff_right hfirst).symm

/-- Steps over a list rest on all that a step rests on. -/
theorem mapM {some : α → Need → Prop} {known : β → Prop} {step : α → Except ε β}
    {items : List α} (hstep : ∀ item ∈ items, g.RestsOn text (some item) known (step item)) :
    g.RestsOn text (fun need => ∃ item ∈ items, some item need)
      (fun values => ∀ value ∈ values, known value) (items.mapM step) where
  gives := by
    rw [exists_mapM_iff]
    constructor
    · rintro hitems need ⟨item, hitem, hneed⟩
      exact (hstep item hitem).gives.mp (hitems item hitem) need hneed
    · intro hneeds item hitem
      exact (hstep item hitem).gives.mpr fun need hneed => hneeds need ⟨item, hitem, hneed⟩
  knows := by
    intro values hvalues value hvalue
    obtain ⟨item, hitem, hgiven⟩ := exists_of_mem_mapM hvalues value hvalue
    exact (hstep item hitem).knows value hgiven

theorem congr {others : Need → Prop} {known other : α → Prop} {work : Except ε α}
    (hwork : g.RestsOn text needs known work) (hneeds : ∀ need, needs need ↔ others need)
    (hknown : ∀ value, known value → other value) : g.RestsOn text others other work where
  gives := by
    rw [hwork.gives]
    simp only [hneeds]
  knows value h := hknown value (hwork.knows value h)

end RestsOn

/-- The children of a type expression that an outline shows as fields or members. -/
def fieldsOf (g : Graph) (tag : String) (expr : NodeId) : List NodeId :=
  (g.children expr).filter fun id => (g.node id).tag == tag && (g.node id).isPlaced

/-- What the entry of a field rests on. -/
def recordFieldNeeds (id : NodeId) : List Need := [.range id]

/-- What the entry of a member of an enumeration rests on. -/
def enumFieldNeeds (id : NodeId) : List Need := [.range id, .value id]

/-- What the entries of the fields or members of a name rest on. -/
def fieldNeeds (g : Graph) (id : NodeId) : List Need :=
  match g.typeExpr? id with
  | none => []
  | some expr =>
      if (g.node expr).tag == Tag.recordType then
        (g.fieldsOf Tag.recordField expr).flatMap recordFieldNeeds
      else if (g.node expr).tag == Tag.enumType then
        (g.fieldsOf Tag.enumField expr).flatMap enumFieldNeeds
      else []

/-- What the entry of a name rests on. -/
def nameNeeds (g : Graph) (block id : NodeId) : List Need :=
  .range (g.around block id) :: .range id :: g.fieldNeeds id

/-- The functions of a scope that an outline shows. -/
def shownFunctions (g : Graph) (scope : ScopeId) : List FunctionNode :=
  (g.scopes.inside scope).filterMap g.shownFunction?

/-- What the outline of a block rests on: the ranges of its functions and of their names, what
the bodies of the functions rest on, and what its other names rest on. -/
inductive Takes (g : Graph) (src : Option Path) : NodeId → Need → Prop where
  | function {block : NodeId} {scope : ScopeId} {shown : FunctionNode}
      (hscope : g.scopeOf? block = some scope) (hshown : shown ∈ g.shownFunctions scope) :
      Takes g src block (.range shown.node)
  | functionName {block : NodeId} {scope : ScopeId} {shown : FunctionNode}
      (hscope : g.scopeOf? block = some scope) (hshown : shown ∈ g.shownFunctions scope) :
      Takes g src block (.range shown.name)
  | body {block body : NodeId} {need : Need} {scope : ScopeId} {shown : FunctionNode}
      (hscope : g.scopeOf? block = some scope) (hshown : shown ∈ g.shownFunctions scope)
      (hbody : shown.body = some body) (htakes : Takes g src body need) : Takes g src block need
  | name {block : NodeId} {need : Need} {scope : ScopeId} {shown : NamedNode}
      (hscope : g.scopeOf? block = some scope) (hshown : shown ∈ g.shownNames src scope)
      (hneed : need ∈ g.nameNeeds block shown.node) : Takes g src block need

/-- The range is that of a node whose range is needed. -/
def IsRangeOf (g : Graph) (text : List CodePoint) (needs : Need → Prop) (range : Range) : Prop :=
  ∃ id, needs (.range id) ∧ g.range text id = .ok range

theorem IsRangeOf.mono {more : Need → Prop} {range : Range}
    (hrange : g.IsRangeOf text needs range) (hneeds : ∀ need, needs need → more need) :
    g.IsRangeOf text more range := by
  obtain ⟨id, hid, hgiven⟩ := hrange
  exact ⟨id, hneeds _ hid, hgiven⟩

/-- The ranges of an entry are those of nodes whose ranges are needed. -/
def Shows (g : Graph) (text : List CodePoint) (needs : Need → Prop) (entry : DocumentSymbol) :
    Prop :=
  ∀ range, entry.Shows range → g.IsRangeOf text needs range

theorem Shows.mono {more : Need → Prop} {entry : DocumentSymbol}
    (hentry : g.Shows text needs entry) (hneeds : ∀ need, needs need → more need) :
    g.Shows text more entry :=
  fun range hrange => (hentry range hrange).mono hneeds

theorem shows_mk {name detail : Text} {kind : SymbolKind} {range selection : Range}
    {children : Option (List DocumentSymbol)} (hrange : g.IsRangeOf text needs range)
    (hselection : g.IsRangeOf text needs selection)
    (hchildren : ∀ child ∈ children.getD [], g.Shows text needs child) :
    g.Shows text needs (.mk name detail kind range selection children) := by
  intro shown hshown
  cases hshown with
  | range => exact hrange
  | selection => exact hselection
  | inner hchild hinner => exact hchildren _ hchild shown hinner

/-- The entry of a field rests on its range, and on what its detail rests on. -/
theorem restsOn_field (g : Graph) (text : List CodePoint) (tag : String)
    {detail : NodeId → Except Fault Text} {fieldNeeds : NodeId → List Need}
    (hrange : ∀ id, .range id ∈ fieldNeeds id)
    (hdetail : ∀ id, g.RestsOn text (fun need => need ∈ fieldNeeds id ∧ need ≠ .range id)
      (fun _ => True) (detail id))
    {expr id : NodeId} (hid : id ∈ g.children expr) :
    g.RestsOn text (fun need => id ∈ g.fieldsOf tag expr ∧ need ∈ fieldNeeds id)
      (fun entry => ∀ field ∈ entry,
        g.Shows text (· ∈ (g.fieldsOf tag expr).flatMap fieldNeeds) field)
      (g.fieldSymbol? text tag detail id) := by
  have hfield : id ∈ g.fieldsOf tag expr ↔
      ¬((g.node id).tag != tag || !(g.node id).isPlaced) = true := by
    simp [fieldsOf, hid]
  rw [fieldSymbol?]
  by_cases hshown : ((g.node id).tag != tag || !(g.node id).isPlaced) = true
  · simp only [hshown, if_true]
    refine (RestsOn.ok (fun field h => nomatch h)).congr (fun need => ?_) fun _ h => h
    exact iff_of_false not_false fun h => hfield.mp h.1 hshown
  · have hmem := hfield.mpr hshown
    rw [if_neg hshown]
    refine (((RestsOn.range g text id).mapError Fault.ofRange).bind fun range hgiven =>
      (hdetail id).bind fun shown _ => RestsOn.ok ?_).congr (fun need => ?_) fun _ h => h
    · intro field hsome
      obtain rfl := Option.some.inj hsome
      have hown : g.IsRangeOf text (· ∈ (g.fieldsOf tag expr).flatMap fieldNeeds) range :=
        ⟨id, List.mem_flatMap.mpr ⟨id, hmem, hrange id⟩, hgiven⟩
      exact shows_mk hown hown (List.forall_mem_nil _)
    · rw [or_false]
      constructor
      · rintro (rfl | ⟨hneed, -⟩)
        · exact ⟨hmem, hrange id⟩
        · exact ⟨hmem, hneed⟩
      · rintro ⟨-, hneed⟩
        by_cases hsame : need = .range id
        · exact Or.inl hsame
        · exact Or.inr ⟨hneed, hsame⟩

theorem restsOn_fieldEntries (g : Graph) (text : List CodePoint) (tag : String)
    {detail : NodeId → Except Fault Text} {fieldNeeds : NodeId → List Need}
    (hrange : ∀ id, .range id ∈ fieldNeeds id)
    (hdetail : ∀ id, g.RestsOn text (fun need => need ∈ fieldNeeds id ∧ need ≠ .range id)
      (fun _ => True) (detail id)) (expr : NodeId) :
    g.RestsOn text (· ∈ (g.fieldsOf tag expr).flatMap fieldNeeds)
      (fun entries => ∀ entry ∈ entries,
        g.Shows text (· ∈ (g.fieldsOf tag expr).flatMap fieldNeeds) entry)
      (g.fieldEntries text tag detail (g.children expr)) := by
  have hfields := RestsOn.mapM fun id (hid : id ∈ g.children expr) =>
    g.restsOn_field text tag hrange hdetail hid
  refine (hfields.map fun entries hentries => ?_).congr (fun need => ?_) fun _ h => h
  · intro entry hentry
    obtain ⟨given, hgiven, hsome⟩ := List.mem_filterMap.mp hentry
    exact hentries given hgiven entry hsome
  · rw [List.mem_flatMap]
    constructor
    · rintro ⟨id, -, hfield⟩
      exact ⟨id, hfield⟩
    · rintro ⟨id, hfield, hneed⟩
      exact ⟨id, (List.mem_filter.mp hfield).1, hfield, hneed⟩

theorem restsOn_nameContents (g : Graph) (text : List CodePoint) (symbol : Symbol) (id : NodeId) :
    g.RestsOn text (· ∈ g.fieldNeeds id)
      (fun contents => ∀ entry ∈ contents.2.2, g.Shows text (· ∈ g.fieldNeeds id) entry)
      (g.nameContents text symbol id) := by
  have hplain : ∀ (kind : SymbolKind) (detail : Text),
      g.RestsOn text (· ∈ ([] : List Need))
        (fun contents => ∀ entry ∈ contents.2.2, g.Shows text (· ∈ ([] : List Need)) entry)
        (.ok (kind, detail, []) : Except Fault (SymbolKind × Text × List DocumentSymbol)) :=
    fun kind detail =>
      (RestsOn.ok (List.forall_mem_nil _)).congr (fun _ => by simp) fun _ h => h
  rw [nameContents, fieldNeeds]
  rcases g.typeExpr? id with _ | expr
  · exact hplain .variable _
  · dsimp only
    split
    · refine (g.restsOn_fieldEntries text _ (fun id => List.mem_cons_self) (fun id => ?_)
        expr).map fun entries h => h
      refine (RestsOn.ok trivial).congr (fun need => iff_of_false not_false ?_) fun _ h => h
      exact fun h => h.2 (List.mem_singleton.mp h.1)
    · split
      · refine (g.restsOn_fieldEntries text _ (fun id => List.mem_cons_self) (fun id => ?_)
          expr).map fun entries h => h
        refine (RestsOn.value g text id).congr (fun need => ?_) fun _ h => h
        simp only [List.mem_cons, List.not_mem_nil, or_false]
        constructor
        · rintro rfl
          exact ⟨Or.inr rfl, nofun⟩
        · rintro ⟨rfl | rfl, hother⟩
          · exact absurd rfl hother
          · rfl
      · exact hplain .variable _

theorem restsOn_nameEntry (g : Graph) (text : List CodePoint) (block : NodeId) (name : Text)
    (symbol : Symbol) (id : NodeId) :
    g.RestsOn text (· ∈ g.nameNeeds block id) (g.Shows text (· ∈ g.nameNeeds block id))
      (g.nameEntry text block name symbol id) := by
  have hrest : ∀ contents : SymbolKind × Text × List DocumentSymbol,
      (∀ entry ∈ contents.2.2, g.Shows text (· ∈ g.fieldNeeds id) entry) →
      g.RestsOn text
        (fun need => need = .range (g.around block id) ∨ need = .range id ∨ False)
        (g.Shows text (· ∈ g.nameNeeds block id)) (do
          let range ← (g.range text (g.around block id)).mapError Fault.ofRange
          let selection ← (g.range text id).mapError Fault.ofRange
          .ok (.mk name contents.2.1 contents.1 range selection (some contents.2.2))) := by
    intro contents hfields
    refine ((RestsOn.range g text _).mapError Fault.ofRange).bind fun range hrange => ?_
    refine ((RestsOn.range g text id).mapError Fault.ofRange).bind fun selection hselection => ?_
    refine RestsOn.ok (shows_mk ⟨_, List.mem_cons_self, hrange⟩
      ⟨id, List.mem_cons_of_mem _ List.mem_cons_self, hselection⟩ ?_)
    intro field hfield
    refine (hfields field hfield).mono fun other hother => ?_
    exact List.mem_cons_of_mem _ (List.mem_cons_of_mem _ hother)
  rw [nameEntry, g.enclosingRange_eq]
  refine ((g.restsOn_nameContents text symbol id).bind hrest).congr (fun other => ?_) fun _ h => h
  simp only [nameNeeds, List.mem_cons, or_false]
  rw [or_comm, or_assoc]

/-- A node lies strictly below another. -/
def Below (g : Graph) : NodeId → NodeId → Prop :=
  Relation.TransGen fun child parent => child ∈ g.children parent

theorem not_below_self (g : Graph) (id : NodeId) : ¬g.Below id id :=
  fun hbelow => g.acyclic.transGen.asymmetric id id hbelow hbelow

/-- The node of every scope lies strictly below that of the scope around it. -/
def ScopesNest (g : Graph) : Prop :=
  ∀ inner outer node above, (g.scopes.scope inner).parent = some outer →
    (g.scopes.scope inner).node = some node → (g.scopes.scope outer).node = some above →
      g.Below node above

/-- Scopes nest when the node of each is a child of that of the scope around it. -/
theorem scopesNest_of_children
    (h : ∀ inner ∈ g.scopes.ids, ∀ outer ∈ (g.scopes.scope inner).parent,
      ∀ node ∈ (g.scopes.scope inner).node, ∀ above ∈ (g.scopes.scope outer).node,
        node ∈ g.children above) : g.ScopesNest := by
  intro inner outer node above hparent hnode habove
  have hinner : inner ∈ g.scopes.ids := by
    rw [ScopeForest.ids, List.mem_range, ScopeForest.size]
    by_contra hlarge
    rw [ScopeForest.scope, Array.getD, dif_neg hlarge] at hparent
    cases hparent
  exact .single (h inner hinner outer hparent node hnode above habove)

theorem node_of_scopeOf? {block : NodeId} {scope : ScopeId}
    (hscope : g.scopeOf? block = some scope) :
    (g.scopes.scope scope).node = some block :=
  beq_iff_eq.mp (List.find?_some (p := fun k => (g.scopes.scope k).node == some block) hscope)

/-- The body of a function that the outline of a block shows lies below the block. -/
theorem body_below (hnest : g.ScopesNest) {block body : NodeId} {scope : ScopeId}
    {shown : FunctionNode} (hscope : g.scopeOf? block = some scope)
    (hshown : shown ∈ g.shownFunctions scope) (hbody : shown.body = some body) :
    g.Below body block := by
  obtain ⟨inner, hinner, hfunction⟩ := List.mem_filterMap.mp hshown
  have hparent : (g.scopes.scope inner).parent = some scope :=
    beq_iff_eq.mp (List.mem_filter.mp hinner).2
  simp only [shownFunction?, Option.bind_eq_bind, Option.bind_eq_some_iff] at hfunction
  obtain ⟨node, hnode, name, -, hgiven⟩ := hfunction
  split at hgiven
  · obtain rfl := Option.some.inj hgiven
    have hchild : body ∈ g.children node := List.mem_of_find?_eq_some hbody
    exact .trans (.single hchild)
      (hnest inner scope node block hparent hnode (node_of_scopeOf? hscope))
  · exact nomatch hgiven

/-- The entries for the body of a function, when it has one. -/
def bodyEntries (g : Graph) (text : List CodePoint) (src : Option Path) (visited : List ScopeId) :
    Option NodeId → Except Fault (List DocumentSymbol)
  | some body => g.scopeEntries text src visited body
  | none => .ok []

/-- The entry of a function. -/
def functionEntry (g : Graph) (text : List CodePoint) (src : Option Path) (visited : List ScopeId)
    (shown : FunctionNode) : Except Fault DocumentSymbol := do
  let range ← (g.range text shown.node).mapError Fault.ofRange
  let selection ← (g.range text shown.name).mapError Fault.ofRange
  let children ← g.bodyEntries text src visited shown.body
  .ok (DocumentSymbol.mk (g.functionName shown.name)
    (g.typeText? (g.nodeAttr shown.node).type) .function range selection (some children))

theorem scopeEntries_of_scope {src : Option Path} {visited : List ScopeId} {block : NodeId}
    {scope : ScopeId} (hscope : g.scopeOf? block = some scope)
    (hvisited : ¬visited.contains scope = true) :
    g.scopeEntries text src visited block = (do
      let functions ← (g.shownFunctions scope).mapM (g.functionEntry text src (scope :: visited))
      let names ← (g.shownNames src scope).mapM fun shown =>
        g.nameEntry text block shown.name (g.symbol shown.symbol) shown.node
      .ok (functions ++ names)) := by
  rw [scopeEntries]
  split
  next hnone => exact absurd hnone (by rw [hscope]; exact Option.some_ne_none scope)
  next found hfound =>
      obtain rfl := Option.some.inj (hscope.symm.trans hfound)
      rw [dif_neg hvisited]
      congr 2
      funext shown
      rw [functionEntry]
      rcases shown.body with _ | body
      · rfl
      · rfl

/-- What the entry of a function rests on. -/
def functionNeeds (g : Graph) (src : Option Path) (shown : FunctionNode) (need : Need) : Prop :=
  need = .range shown.node ∨ need = .range shown.name ∨
    ∃ body, shown.body = some body ∧ g.Takes src body need

theorem restsOn_functionEntry {src : Option Path} {visited : List ScopeId} {shown : FunctionNode}
    (hbody : ∀ body, shown.body = some body → g.RestsOn text (g.Takes src body)
      (fun entries => ∀ entry ∈ entries, g.Shows text (g.Takes src body) entry)
      (g.scopeEntries text src visited body)) :
    g.RestsOn text (g.functionNeeds src shown) (g.Shows text (g.functionNeeds src shown))
      (g.functionEntry text src visited shown) := by
  have hchildren : g.RestsOn text
      (fun need => ∃ body, shown.body = some body ∧ g.Takes src body need)
      (fun children => ∀ child ∈ children, g.Shows text (g.functionNeeds src shown) child)
      (g.bodyEntries text src visited shown.body) := by
    rcases hshown : shown.body with _ | body
    · exact (RestsOn.ok (List.forall_mem_nil _)).congr (fun _ => by simp) fun _ h => h
    · refine (hbody body hshown).congr (fun id => by simp) fun children hshows child hchild => ?_
      exact (hshows child hchild).mono fun id hid => Or.inr (Or.inr ⟨body, hshown, hid⟩)
  have hentry : ∀ range selection children, g.range text shown.node = .ok range →
      g.range text shown.name = .ok selection →
      (∀ child ∈ children, g.Shows text (g.functionNeeds src shown) child) →
      g.Shows text (g.functionNeeds src shown) (.mk (g.functionName shown.name)
        (g.typeText? (g.nodeAttr shown.node).type) .function range selection (some children)) :=
    fun range selection children hrange hselection hshows =>
      shows_mk ⟨_, Or.inl rfl, hrange⟩ ⟨_, Or.inr (Or.inl rfl), hselection⟩ hshows
  rw [functionEntry]
  refine (((RestsOn.range g text shown.node).mapError Fault.ofRange).bind fun range hrange =>
    ((RestsOn.range g text shown.name).mapError Fault.ofRange).bind fun selection hselection =>
      hchildren.bind fun children hshows =>
        RestsOn.ok (hentry range selection children hrange hselection hshows)).congr
    (fun id => ?_) fun _ h => h
  rw [functionNeeds, or_false]

theorem takes_iff {src : Option Path} {block : NodeId} {need : Need} {scope : ScopeId}
    (hscope : g.scopeOf? block = some scope) :
    g.Takes src block need ↔ (∃ shown ∈ g.shownFunctions scope, g.functionNeeds src shown need) ∨
      ∃ shown ∈ g.shownNames src scope, need ∈ g.nameNeeds block shown.node := by
  constructor
  · intro htakes
    cases htakes with
    | function hfound hshown =>
        obtain rfl := Option.some.inj (hscope.symm.trans hfound)
        exact Or.inl ⟨_, hshown, Or.inl rfl⟩
    | functionName hfound hshown =>
        obtain rfl := Option.some.inj (hscope.symm.trans hfound)
        exact Or.inl ⟨_, hshown, Or.inr (Or.inl rfl)⟩
    | body hfound hshown hbody htakes =>
        obtain rfl := Option.some.inj (hscope.symm.trans hfound)
        exact Or.inl ⟨_, hshown, Or.inr (Or.inr ⟨_, hbody, htakes⟩)⟩
    | name hfound hshown hid =>
        obtain rfl := Option.some.inj (hscope.symm.trans hfound)
        exact Or.inr ⟨_, hshown, hid⟩
  · rintro (⟨shown, hshown, rfl | rfl | ⟨body, hbody, htakes⟩⟩ | ⟨shown, hshown, hid⟩)
    · exact .function hscope hshown
    · exact .functionName hscope hshown
    · exact .body hscope hshown hbody htakes
    · exact .name hscope hshown hid

/-- The outline of a block rests on what it takes.  The induction follows the
scopes from the outside in; the nodes of all scopes around a block lie above it, so that no
scope is met inside itself. -/
theorem restsOn_scopeEntries (hnest : g.ScopesNest) (text : List CodePoint) (src : Option Path)
    (visited : List ScopeId) (block : NodeId)
    (hvisited : ∀ scope ∈ visited, ∃ above, (g.scopes.scope scope).node = some above ∧
      g.Below block above) :
    g.RestsOn text (g.Takes src block)
      (fun entries => ∀ entry ∈ entries, g.Shows text (g.Takes src block) entry)
      (g.scopeEntries text src visited block) := by
  induction visited, block using Graph.scopeEntries.induct g with
  | case1 visited block hscope =>
      have hnone : ∀ id, ¬g.Takes src block id := by
        intro id htakes
        cases htakes with
        | function hfound => exact nomatch hscope.symm.trans hfound
        | functionName hfound => exact nomatch hscope.symm.trans hfound
        | body hfound => exact nomatch hscope.symm.trans hfound
        | name hfound => exact nomatch hscope.symm.trans hfound
      have hentries : g.scopeEntries text src visited block = .ok [] := by
        rw [scopeEntries]
        split
        next => rfl
        next found hfound => exact nomatch hscope.symm.trans hfound
      rw [hentries]
      exact (RestsOn.ok (List.forall_mem_nil _)).congr
        (fun id => iff_of_false not_false (hnone id)) fun _ h => h
  | case2 visited block scope hscope hfound =>
      obtain ⟨above, habove, hbelow⟩ := hvisited scope (by simpa using hfound)
      obtain rfl := Option.some.inj ((node_of_scopeOf? hscope).symm.trans habove)
      exact absurd hbelow (g.not_below_self block)
  | case3 visited block scope hscope hfound ih =>
      have hinner : ∀ shown ∈ g.shownFunctions scope, ∀ body, shown.body = some body →
          ∀ outer ∈ scope :: visited, ∃ above, (g.scopes.scope outer).node = some above ∧
            g.Below body above := by
        intro shown hshown body hbody outer houter
        have hbelow := body_below hnest hscope hshown hbody
        rcases List.mem_cons.mp houter with rfl | houter
        · exact ⟨block, node_of_scopeOf? hscope, hbelow⟩
        · obtain ⟨above, habove, hblock⟩ := hvisited outer houter
          exact ⟨above, habove, hbelow.trans hblock⟩
      have hfunction : ∀ shown ∈ g.shownFunctions scope,
          g.RestsOn text (g.functionNeeds src shown) (g.Shows text (g.Takes src block))
            (g.functionEntry text src (scope :: visited) shown) := by
        intro shown hshown
        refine (restsOn_functionEntry fun body hbody =>
          ih body (hinner shown hshown body hbody)).congr (fun _ => Iff.rfl) fun entry hentry => ?_
        exact hentry.mono fun id hid => (takes_iff hscope).mpr (Or.inl ⟨shown, hshown, hid⟩)
      have hname : ∀ shown ∈ g.shownNames src scope,
          g.RestsOn text (· ∈ g.nameNeeds block shown.node) (g.Shows text (g.Takes src block))
            (g.nameEntry text block shown.name (g.symbol shown.symbol) shown.node) := by
        intro shown hshown
        refine (g.restsOn_nameEntry text block shown.name _ shown.node).congr
          (fun _ => Iff.rfl) fun entry hentry => ?_
        exact hentry.mono fun id hid => (takes_iff hscope).mpr (Or.inr ⟨shown, hshown, hid⟩)
      rw [scopeEntries_of_scope hscope hfound]
      refine ((RestsOn.mapM hfunction).bind fun functions hfunctions =>
        (RestsOn.mapM hname).bind fun names hnames => RestsOn.ok fun entry hentry =>
          (List.mem_append.mp hentry).elim (hfunctions entry) (hnames entry)).congr
        (fun id => ?_) fun _ h => h
      rw [takes_iff hscope, or_false]

theorem isPlaced_of_shownFunction? {scope : ScopeId} {shown : FunctionNode}
    (hshown : g.shownFunction? scope = some shown) :
    (g.node shown.node).isPlaced = true ∧ (g.node shown.name).isPlaced = true := by
  simp only [shownFunction?, Option.bind_eq_bind, Option.bind_eq_some_iff] at hshown
  obtain ⟨node, -, name, -, hgiven⟩ := hshown
  split at hgiven
  next hplaced =>
      obtain rfl := Option.some.inj hgiven
      simp only [Bool.and_eq_true] at hplaced
      exact ⟨hplaced.1.2, hplaced.2⟩
  next => exact nomatch hgiven

/-- A name that is shown has a place, and lies in no other file than the outline is of. -/
theorem placed_of_shownName? {src : Option Path} {name : Text} {symbol : SymbolId}
    {shown : NamedNode} (hshown : g.shownName? src name symbol = some shown) :
    (g.node shown.node).isPlaced = true ∧ liesElsewhere (g.node shown.node).src src = false := by
  simp only [shownName?, Option.bind_eq_bind, Option.bind_eq_some_iff] at hshown
  obtain ⟨type, -, node, -, hgiven⟩ := hshown
  split at hgiven
  next => exact nomatch hgiven
  next hplaced =>
      obtain rfl := Option.some.inj hgiven
      simp only [Bool.or_eq_true, Bool.not_eq_true', not_or, Bool.not_eq_true,
        Bool.not_eq_false] at hplaced
      exact ⟨hplaced.1.2, hplaced.2⟩

theorem placed_of_mem_shownNames {src : Option Path} {scope : ScopeId} {shown : NamedNode}
    (hshown : shown ∈ g.shownNames src scope) :
    (g.node shown.node).isPlaced = true ∧ liesElsewhere (g.node shown.node).src src = false := by
  obtain ⟨entry, -, hname⟩ := List.mem_filterMap.mp hshown
  exact placed_of_shownName? hname

theorem isPlaced_of_mem_fieldNeeds {id field : NodeId} (hfield : .range field ∈ g.fieldNeeds id) :
    (g.node field).isPlaced = true := by
  have hplaced : ∀ tag expr, field ∈ g.fieldsOf tag expr → (g.node field).isPlaced = true := by
    intro tag expr hmem
    exact (Bool.and_eq_true_iff.mp (List.mem_filter.mp hmem).2).2
  rw [fieldNeeds] at hfield
  split at hfield
  · cases hfield
  · split at hfield
    · obtain ⟨other, hother, hneed⟩ := List.mem_flatMap.mp hfield
      obtain rfl : field = other := by simpa [recordFieldNeeds] using hneed
      exact hplaced _ _ hother
    · split at hfield
      · obtain ⟨other, hother, hneed⟩ := List.mem_flatMap.mp hfield
        obtain rfl : field = other := by simpa [enumFieldNeeds] using hneed
        exact hplaced _ _ hother
      · cases hfield

/-- Only ranges of nodes that have a place are taken. -/
theorem isPlaced_of_takes {src : Option Path} {block id : NodeId}
    (htakes : g.Takes src block (.range id)) : (g.node id).isPlaced = true := by
  generalize hneed : Need.range id = need at htakes
  induction htakes with
  | function hscope hshown =>
      obtain rfl := Need.range.inj hneed
      obtain ⟨inner, -, hfunction⟩ := List.mem_filterMap.mp hshown
      exact (isPlaced_of_shownFunction? hfunction).1
  | functionName hscope hshown =>
      obtain rfl := Need.range.inj hneed
      obtain ⟨inner, -, hfunction⟩ := List.mem_filterMap.mp hshown
      exact (isPlaced_of_shownFunction? hfunction).2
  | body hscope hshown hbody htakes ih => exact ih hneed
  | name hscope hshown hmem =>
      have hplaced := (placed_of_mem_shownNames hshown).1
      subst hneed
      simp only [nameNeeds, List.mem_cons, Need.range.injEq] at hmem
      rcases hmem with rfl | rfl | hfield
      · exact isPlaced_around hplaced
      · exact hplaced
      · exact isPlaced_of_mem_fieldNeeds hfield

end Graph

namespace Tree

/-- The file that the document is, when its root names one. -/
def source (tree : Tree) : Option Path := (tree.graph.node tree.root).src.map Path.ofText

/-- Whether a node is of the document itself: it names no file, or that of the root. -/
def owns (tree : Tree) (id : NodeId) : Bool :=
  (tree.graph.node id).src.all fun src => tree.source == some (Path.ofText src)

/-- All nodes of the document itself that have a place lie in the text. -/
def Fits (tree : Tree) (text : List CodePoint) : Prop :=
  ∀ id span, tree.owns id = true → (tree.graph.node id).span = some span → span.Within text

/-- The nodes that the outline of a document shows the ranges of. -/
def Takes (tree : Tree) (id : NodeId) : Prop := tree.graph.Takes tree.source tree.root (.range id)

/-- The values that the outline of a document shows can be written: none of them is an integer
of more digits than are converted. -/
def WritesValues (tree : Tree) : Prop :=
  ∀ id, tree.graph.Takes tree.source tree.root (.value id) → tree.graph.WritesValue id

theorem forall_met_iff (tree : Tree) (text : List CodePoint) :
    (∀ need, tree.graph.Takes tree.source tree.root need → need.Met tree.graph text) ↔
      (∀ id, tree.Takes id → ∃ range, tree.graph.range text id = .ok range) ∧
        tree.WritesValues := by
  constructor
  · exact fun hneeds => ⟨fun id htakes => hneeds (.range id) htakes,
      fun id htakes => hneeds (.value id) htakes⟩
  · rintro ⟨hranges, hvalues⟩ (id | id) htakes
    · exact hranges id htakes
    · exact hvalues id htakes

/-- The range is that of a node of the document itself, and both its ends lead back to the
ends of the node. -/
def Locates (tree : Tree) (text : List CodePoint) (range : Range) : Prop :=
  ∃ id span, tree.owns id = true ∧ (tree.graph.node id).span = some span ∧
    range.Marks text span

theorem owns_of_mem_shownNames {tree : Tree} {path : Path} (hsource : tree.source = some path)
    {scope : ScopeId} {shown : Graph.NamedNode}
    (hshown : shown ∈ tree.graph.shownNames tree.source scope) : tree.owns shown.node = true := by
  have hhere := (Graph.placed_of_mem_shownNames hshown).2
  rw [owns, hsource]
  rw [hsource] at hhere
  rcases hsrc : (tree.graph.node shown.node).src with _ | src
  · rfl
  · rw [hsrc] at hhere
    simp only [Graph.liesElsewhere, bne_eq_false_iff_eq] at hhere
    simp [hhere]

/-- A node of the document itself that has a place has a range, which leads back to it. -/
theorem locates_of_owns {tree : Tree} {text : List CodePoint} (hfits : tree.Fits text)
    (htext : Position.IsMeasurable text) {id : NodeId}
    (howns : tree.owns id = true) (hplaced : (tree.graph.node id).isPlaced = true) :
    ∃ range, tree.graph.range text id = .ok range ∧ tree.Locates text range := by
  obtain ⟨span, hspan, hofSpan⟩ := Graph.range_of_isPlaced hplaced text
  have hwithin := hfits id span howns hspan
  obtain ⟨range, hrange⟩ := Range.exists_ofSpan htext hwithin
  exact ⟨range, hofSpan.trans hrange, id, span, howns, hspan,
    Range.marks_of_ofSpan hrange hwithin.2.1⟩

/-- An outline is given exactly when all the nodes that it takes have ranges and all the
values that it shows can be written.  When these nodes are all of the document itself, they
have ranges, and every range of the outline, at every depth, is that of such a node.  Those of
the names are, when the root names its file. -/
theorem outline_locates_own_nodes {tree : Tree} {text : List CodePoint} (hfits : tree.Fits text)
    (htext : Position.IsMeasurable text) (hnest : tree.graph.ScopesNest) :
    ((∃ entries, tree.outline text = .ok entries) ↔
      (∀ id, tree.Takes id → ∃ range, tree.graph.range text id = .ok range) ∧
        tree.WritesValues) ∧
    ((∀ id, tree.Takes id → tree.owns id = true) →
      ((∃ entries, tree.outline text = .ok entries) ↔ tree.WritesValues) ∧
        ∀ entries, tree.outline text = .ok entries →
          ∀ entry ∈ entries, ∀ range, entry.Shows range → tree.Locates text range) ∧
    ∀ path, tree.source = some path → ∀ scope, ∀ shown ∈ tree.graph.shownNames tree.source scope,
      tree.owns shown.node = true := by
  have houtline := Graph.restsOn_scopeEntries hnest text tree.source [] tree.root
    (List.forall_mem_nil _)
  have hgives : (∃ entries, tree.outline text = .ok entries) ↔
      (∀ id, tree.Takes id → ∃ range, tree.graph.range text id = .ok range) ∧
        tree.WritesValues := houtline.gives.trans (tree.forall_met_iff text)
  refine ⟨hgives, fun howns => ?_, fun path hsource scope shown hshown =>
    owns_of_mem_shownNames hsource hshown⟩
  have hlocates : ∀ id, tree.Takes id →
      ∃ range, tree.graph.range text id = .ok range ∧ tree.Locates text range :=
    fun id htakes => locates_of_owns hfits htext (howns id htakes)
      (Graph.isPlaced_of_takes htakes)
  have hranges : ∀ id, tree.Takes id → ∃ range, tree.graph.range text id = .ok range := by
    intro id htakes
    obtain ⟨range, hrange, -⟩ := hlocates id htakes
    exact ⟨range, hrange⟩
  refine ⟨hgives.trans (and_iff_right hranges),
    fun entries hentries entry hentry range hshows => ?_⟩
  obtain ⟨id, htakes, hrange⟩ := houtline.knows entries hentries entry hentry range hshows
  obtain ⟨given, hgiven, hgood⟩ := hlocates id htakes
  obtain rfl := Except.ok.inj (hrange.symm.trans hgiven)
  exact hgood

theorem forall_owns {tree : Tree}
    (h : ∀ id < tree.graph.nodes.size, tree.owns id = true) (id : NodeId) :
    tree.owns id = true := by
  by_cases hid : id < tree.graph.nodes.size
  · exact h id hid
  · rw [owns, Graph.node, Array.getD, dif_neg hid]
    rfl

theorem fits_of_spans {tree : Tree} {text : List CodePoint}
    (h : ∀ id < tree.graph.nodes.size, tree.owns id = true →
      ∀ span ∈ (tree.graph.node id).span, span.Within text) : tree.Fits text := by
  intro id span howns hspan
  exact h id (Graph.lt_size_of_span hspan) howns span hspan

theorem writesValues_of_forall {tree : Tree}
    (h : ∀ id < tree.graph.nodes.size, tree.graph.WritesValue id) : tree.WritesValues := by
  intro id _
  by_cases hid : id < tree.graph.nodes.size
  · exact h id hid
  · have hnode : tree.graph.node id = default := by rw [Graph.node, Array.getD, dif_neg hid]
    have hconst : tree.graph.enumFieldConst? id = none := by
      simp only [Graph.enumFieldConst?, Graph.children, Graph.nodeAttr, Graph.attr, hnode]
      rfl
    intro n hn
    rw [hconst] at hn
    cases hn

/-- A document of one function, with a name in its body. -/
def nestedTree : Tree where
  graph := (Graph.ofTables? #[{ kind := .scalar, name := "int64" }]
    #[{ type := some 0, node := some 4 }]
    #[{ tag := Tag.block, span := some ⟨0, 30⟩, children := [1], src := some "/a.nelua" },
      { tag := Tag.funcDef, span := some ⟨0, 30⟩, children := [2, 3] },
      { tag := Tag.idDecl, span := some ⟨15, 16⟩, name := some "f" },
      { tag := Tag.block, span := some ⟨19, 27⟩, children := [4] },
      { tag := Tag.idDecl, span := some ⟨25, 26⟩, src := some "/a.nelua" }]
    ((((ScopeForest.empty.push (some 0) none).push (some 1) (some 0)).push
      (some 3) (some 1)).declare 2 "y" 0)).get (by decide +kernel)
  root := 0

theorem outline_locates_nested_nodes :
    let text := Text.glyphs "local function f() local y end".toList
    nestedTree.Fits text ∧ Position.IsMeasurable text ∧
      nestedTree.graph.ScopesNest ∧ (∀ id, nestedTree.owns id = true) ∧
      ∃ entries, nestedTree.outline text = .ok entries ∧
        ∀ entry ∈ entries, ∀ range, entry.Shows range → nestedTree.Locates text range := by
  intro text
  have hfits : nestedTree.Fits text := fits_of_spans (by decide +kernel)
  have htext : Position.IsMeasurable text := by decide +kernel
  have hnest : nestedTree.graph.ScopesNest := Graph.scopesNest_of_children (by decide +kernel)
  have howns : ∀ id, nestedTree.owns id = true := forall_owns (by decide +kernel)
  obtain ⟨hgives, hlocates⟩ :=
    (outline_locates_own_nodes hfits htext hnest).2.1 fun id _ => howns id
  obtain ⟨entries, hentries⟩ := hgives.mpr (writesValues_of_forall (by decide +kernel))
  exact ⟨hfits, htext, hnest, howns, entries, hentries, hlocates entries hentries⟩

/-- A document of one block, in which stands a function of another file. -/
def importingTree : Tree where
  graph := (Graph.ofTables? #[] #[]
    #[{ tag := Tag.block, span := some ⟨0, 7⟩, children := [1], src := some "/main.nelua" },
      { tag := Tag.funcDef, span := some ⟨40, 60⟩, children := [2], src := some "/lib.nelua" },
      { tag := Tag.idDecl, span := some ⟨49, 50⟩, name := some "g", src := some "/lib.nelua" }]
    ((ScopeForest.empty.push (some 0) none).push (some 1) (some 0))).get (by decide +kernel)
  root := 0

theorem outline_importingTree :
    importingTree.outline (Text.glyphs "local f".toList) =
      .error (.position (.offsetOutside 40 7)) := by
  have hrange : importingTree.graph.range (Text.glyphs "local f".toList) 1 =
      .error (.position (.offsetOutside 40 7)) := by decide +kernel
  have hscope : importingTree.graph.scopeOf? importingTree.root = some 0 := by decide +kernel
  have hfunctions : importingTree.graph.shownFunctions 0 = [⟨1, 2, none⟩] := by decide +kernel
  have hvisited : ¬([] : List ScopeId).contains 0 = true := Bool.false_ne_true
  rw [outline, Graph.scopeEntries_of_scope hscope hvisited, hfunctions, List.mapM_cons,
    Graph.functionEntry, hrange]
  rfl

/-- Not every outline is given when the nodes of the document lie in its text: a function of
another file is taken for one of the document. -/
theorem foreign_function_ends_outline :
    importingTree.Fits (Text.glyphs "local f".toList) ∧
      Position.IsMeasurable (Text.glyphs "local f".toList) ∧
      importingTree.graph.ScopesNest ∧ importingTree.owns 1 = false ∧
      importingTree.outline (Text.glyphs "local f".toList) =
        .error (.position (.offsetOutside 40 7)) := by
  have hfits : importingTree.Fits (Text.glyphs "local f".toList) :=
    fits_of_spans (by decide +kernel)
  have hnest : importingTree.graph.ScopesNest := Graph.scopesNest_of_children (by decide +kernel)
  exact ⟨hfits, by decide +kernel, hnest, by decide +kernel, outline_importingTree⟩

end Tree

end EditorBridge
