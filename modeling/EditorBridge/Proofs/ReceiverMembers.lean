/-
Members of a receiver.  What is offered behind a point or a colon depends on the type of the
receiver alone and not on how a call names it: behind a colon stand the bound methods of the type,
behind a point the fields of its values, or what hangs on the type itself.  Each name is offered
once, in the order of its table, with the type that the table has for it.
-/
import EditorBridge.Completion
import Mathlib.Data.List.Nodup

namespace EditorBridge

namespace Table

variable {α : Type} {table : Table α}

/-- The entries of a table are what it has under their names. -/
theorem get?_of_mem {entry : Text × α} (hentry : entry ∈ table.entries) :
    table.get? entry.1 = some entry.2 := by
  obtain ⟨entries, hdistinct⟩ := table
  change (entries.find? fun other => other.1 == entry.1).map Prod.snd = some entry.2
  induction entries with
  | nil => exact nomatch hentry
  | cons first rest ih =>
      obtain ⟨hfirst, hrest⟩ := List.nodup_cons.mp hdistinct
      rcases List.mem_cons.mp hentry with rfl | hmem
      · simp
      · have hne : first.1 ≠ entry.1 := fun hsame => hfirst (hsame ▸ List.mem_map_of_mem hmem)
        rw [List.find?_cons, beq_eq_false_iff_ne.mpr hne]
        exact ih hrest hmem

theorem filter_names (table : Table α) (keep : α → Bool) :
    (table.names.filter fun name => (table.get? name).any keep) =
      (table.entries.filter fun entry => keep entry.2).map Prod.fst := by
  have hkept : ∀ entry ∈ table.entries, (table.get? entry.1).any keep = keep entry.2 := by
    intro entry hentry
    rw [get?_of_mem hentry, Option.any_some]
  rw [names, List.filter_map]
  exact congrArg (List.map Prod.fst) (List.filter_congr hkept)

end Table

/-- The items offer some names once each, in their order, each with its detail. -/
structure Lists (items : List CompletionItem) (names : List Text) (detail : Text → Text) :
    Prop where
  labels : items.map CompletionItem.label = names
  once : names.Nodup
  details : ∀ item ∈ items, item.detail = detail item.label

/-- The item of a name and its detail. -/
def CompletionItem.ofEntry (entry : Text × Text) : CompletionItem := ⟨entry.1, entry.2⟩

section

variable {α : Type} (table : Table α) {text : α → Text} {detail : Text → Text}
  (hdetail : ∀ name value, table.get? name = some value → detail name = text value)
include hdetail

/-- The entries that are kept offer the names that have a value to keep. -/
theorem lists_kept (keep : α → Bool) :
    Lists (((table.entries.filter fun entry => keep entry.2).map fun entry =>
        (entry.1, text entry.2)).map .ofEntry)
      (table.names.filter fun name => (table.get? name).any keep) detail where
  labels := by
    rw [table.filter_names, List.map_map, List.map_map]
    rfl
  once := table.distinct.filter _
  details := by
    simp only [List.map_map, List.forall_mem_map]
    intro entry hentry
    exact (hdetail _ _ (Table.get?_of_mem (List.mem_of_mem_filter hentry))).symm

/-- All entries offer all names. -/
theorem lists_entries :
    Lists ((table.entries.map fun entry => (entry.1, text entry.2)).map .ofEntry) table.names
      detail := by
  have hkept := lists_kept table hdetail fun _ => true
  rw [table.filter_names, List.filter_true] at hkept
  exact hkept

end

/-- How a call names the type of its receiver: it calls a type expression, a value, a pointer to
a value, or nothing that has a type. -/
inductive Naming where
  | expression
  | value
  | pointer
  | untyped
deriving DecidableEq, Repr

/-- Whether a value is called, or a pointer to one. -/
def Naming.isValue : Naming → Bool
  | .value | .pointer => true
  | .expression | .untyped => false

namespace Graph

variable {g : Graph} {call : NodeId} {type : TypeId} {naming : Naming}

/-- The node that a call calls. -/
def callee? (g : Graph) (call : NodeId) : Option NodeId := (g.children call).head?

/-- A call names the type of its receiver: the type that an expression denotes, the type of a
value, the type that a pointer points to, or else its own type. -/
inductive Names (g : Graph) (call : NodeId) (type : TypeId) : Naming → Prop where
  | expression {callee : NodeId} {own : TypeId} (hcallee : g.callee? call = some callee)
      (htype : (g.nodeAttr callee).type = some own) (hkind : (g.typeInfo own).kind = .type)
      (hvalue : (g.nodeAttr callee).value = some type) : Names g call type .expression
  | value {callee : NodeId} (hcallee : g.callee? call = some callee)
      (htype : (g.nodeAttr callee).type = some type) : Names g call type .value
  | pointer {callee : NodeId} {own : TypeId} (hcallee : g.callee? call = some callee)
      (htype : (g.nodeAttr callee).type = some own) (hkind : (g.typeInfo own).kind = .pointer)
      (hsubtype : (g.typeInfo own).subtype = some type) : Names g call type .pointer
  | untyped
      (hcallee : ∀ callee, g.callee? call = some callee → (g.nodeAttr callee).type = none)
      (htype : (g.nodeAttr call).type = some type) : Names g call type .untyped

/-- The type that is neither that of type expressions nor points to another. -/
def IsPlainType (g : Graph) (type : TypeId) : Prop :=
  (g.typeInfo type).kind ≠ .type ∧
    ((g.typeInfo type).kind = .pointer → (g.typeInfo type).subtype = none)

theorem receiver_of_typed {callee : NodeId} {own : TypeId} (hcallee : g.callee? call = some callee)
    (htype : (g.nodeAttr callee).type = some own) :
    g.receiver call =
      if (g.typeInfo own).isType then ((g.nodeAttr callee).value, false)
      else if (g.typeInfo own).isPointer && (g.typeInfo own).subtype.isSome then
        ((g.typeInfo own).subtype, true)
      else (some own, true) := by
  rw [callee?] at hcallee
  simp only [receiver, hcallee, htype, Option.bind_some, Option.map_some]

theorem receiver_of_untyped
    (hcallee : ∀ callee, g.callee? call = some callee → (g.nodeAttr callee).type = none) :
    g.receiver call = ((g.nodeAttr call).type, false) := by
  rw [receiver]
  cases hhead : (g.children call).head? with
  | none => rfl
  | some callee => simp only [Option.bind_some, hcallee callee hhead, Option.map_none]

/-- However a call names a type, it is completed on this type. -/
theorem receiver_of_names (hplain : g.IsPlainType type) (hnames : g.Names call type naming) :
    g.receiver call = (some type, naming.isValue) := by
  cases hnames with
  | expression hcallee htype hkind hvalue =>
      rw [receiver_of_typed hcallee htype, if_pos (by simp [TypeInfo.isType, hkind]), hvalue]
      rfl
  | value hcallee htype =>
      have hpoints : ¬((g.typeInfo type).isPointer && (g.typeInfo type).subtype.isSome) = true := by
        rw [Bool.and_eq_true, TypeInfo.isPointer, beq_iff_eq]
        rintro ⟨hkind, hsubtype⟩
        rw [hplain.2 hkind] at hsubtype
        cases hsubtype
      rw [receiver_of_typed hcallee htype, if_neg (by simp [TypeInfo.isType, hplain.1]),
        if_neg hpoints]
      rfl
  | pointer hcallee htype hkind hsubtype =>
      rw [receiver_of_typed hcallee htype, if_neg (by simp [TypeInfo.isType, hkind]),
        if_pos (by simp [TypeInfo.isPointer, hkind, hsubtype]), hsubtype]
      rfl
  | untyped hcallee htype =>
      rw [receiver_of_untyped hcallee, htype]
      rfl

/-- The completion items of the members of a type. -/
def memberItems (g : Graph) (type : TypeId) (mode : Access) (isInstance : Bool) :
    List CompletionItem :=
  (g.members type mode isInstance).map .ofEntry

theorem completions_of_names (hplain : g.IsPlainType type) {location : Location}
    (hcall : Tag.isCall (g.node location.node).tag = true)
    (hnames : g.Names location.node type naming) {mode : Access} (hmode : mode ≠ .bare) :
    g.completions location mode = g.memberItems type mode naming.isValue := by
  rw [completions, choices, if_neg hmode, if_pos hcall, receiver_of_names hplain hnames]
  rfl

/-- The type of a metafield, as it is shown. -/
def metafieldText (g : Graph) (type : TypeId) (name : Text) : Text :=
  g.typeText? (((g.typeInfo type).metafields.get? name).bind fun id => (g.symbol id).type)

/-- The declared type of a field, as it is shown. -/
def fieldText (g : Graph) (type : TypeId) (name : Text) : Text :=
  g.typeText? (((g.typeInfo type).fields.get? name).bind fun declared => declared)

/-- The names of the metafields that are called on a receiver. -/
def boundNames (g : Graph) (type : TypeId) : List Text :=
  (g.typeInfo type).metafields.names.filter fun name =>
    ((g.typeInfo type).metafields.get? name).any fun id => (g.symbol id).selfType.isSome

theorem metafieldText_eq {name : Text} {id : SymbolId}
    (hget : (g.typeInfo type).metafields.get? name = some id) :
    g.metafieldText type name = g.symbolDetail id := by
  rw [metafieldText, hget]
  rfl

theorem fieldText_eq {name : Text} {declared : Option TypeId}
    (hget : (g.typeInfo type).fields.get? name = some declared) :
    g.fieldText type name = g.typeText? declared := by
  rw [fieldText, hget]
  rfl

/-- Behind a colon stand the metafields that are called on a receiver. -/
theorem lists_methods (g : Graph) (type : TypeId) (isInstance : Bool) :
    Lists (g.memberItems type .method isInstance) (g.boundNames type) (g.metafieldText type) := by
  rw [memberItems, members, if_pos rfl]
  exact lists_kept _ (fun _ _ => metafieldText_eq) fun id => (g.symbol id).isBound

/-- Behind a point of a value stand its fields. -/
theorem lists_fields (g : Graph) (type : TypeId) :
    Lists (g.memberItems type .field true) (g.typeInfo type).fields.names (g.fieldText type) := by
  rw [memberItems, members, if_neg (by decide), if_pos rfl]
  exact lists_entries _ fun _ _ => fieldText_eq

/-- What is offered behind a point of a type itself: the metafields of a record, the members of an
enumeration, each of the type itself, and otherwise the fields. -/
def ListsHanging (g : Graph) (type : TypeId) (items : List CompletionItem) : Prop :=
  match (g.typeInfo type).kind with
  | .record => Lists items (g.typeInfo type).metafields.names (g.metafieldText type)
  | .enum => Lists items (g.typeInfo type).fields.names fun _ => (g.typeInfo type).text
  | _ => Lists items (g.typeInfo type).fields.names (g.fieldText type)

theorem listsHanging_members (g : Graph) (type : TypeId) :
    g.ListsHanging type (g.memberItems type .field false) := by
  rw [ListsHanging, memberItems, members, if_neg (by decide), if_neg Bool.false_ne_true,
    TypeInfo.isRecord, TypeInfo.isEnum]
  cases (g.typeInfo type).kind with
  | record =>
      dsimp only
      rw [if_pos (by rfl), List.filter_true]
      exact lists_entries _ fun _ _ => metafieldText_eq
  | enum =>
      have hnames : (g.typeInfo type).fields.names.map
          (fun name => (name, (g.typeInfo type).text)) =
          (g.typeInfo type).fields.entries.map fun entry => (entry.1, (g.typeInfo type).text) := by
        rw [Table.names, List.map_map]
        rfl
      dsimp only
      rw [if_neg (by decide), if_pos (by rfl), hnames]
      exact lists_entries _ fun _ _ _ => rfl
  | type | function | polyfunction | pointer | scalar =>
      exact lists_entries _ fun _ _ => fieldText_eq

/-- What is offered for the members of a receiver depends on its type alone.  Of a type that is
neither that of type expressions nor points to another there are methods, fields and what hangs on
the type itself, each name once and in the order of its table, and for every call that names this
type, in whatever way, the methods are offered behind a colon; behind a point the fields are
offered when a value or a pointer is called, and otherwise what hangs on the type. -/
theorem members_depend_on_type (g : Graph) (type : TypeId) (hplain : g.IsPlainType type) :
    ∃ methods fields hanging : List CompletionItem,
      Lists methods (g.boundNames type) (g.metafieldText type) ∧
      Lists fields (g.typeInfo type).fields.names (g.fieldText type) ∧
      g.ListsHanging type hanging ∧
      ∀ (location : Location) (naming : Naming),
        (g.node location.node).tag ∈ [Tag.call, Tag.callMethod] →
        g.Names location.node type naming →
        g.completions location .method = methods ∧
        g.completions location .field = if naming.isValue then fields else hanging := by
  refine ⟨g.memberItems type .method true, g.memberItems type .field true,
    g.memberItems type .field false, g.lists_methods type true, g.lists_fields type,
    g.listsHanging_members type, ?_⟩
  intro location naming htag hnames
  have hcall : Tag.isCall (g.node location.node).tag = true := by
    simpa [Tag.isCall] using htag
  constructor
  · rw [completions_of_names hplain hcall hnames (by decide)]
    rfl
  · rw [completions_of_names hplain hcall hnames (by decide)]
    cases naming.isValue with
    | true => rfl
    | false => rfl

/-- Four calls that name a record in the four ways: by a type expression, a value, a pointer and
an untyped callee. -/
def pointGraph : Graph :=
  (Graph.ofTables?
    #[{ kind := .type, name := "type" },
      { kind := .record, name := "Point",
        fields := .ofList [("x", some 3), ("tag", none)],
        metafields := .ofList [("make", 0), ("norm", 1)] },
      { kind := .pointer, name := "pointer", subtype := some 1 },
      { name := "int64" },
      { kind := .function, name := "function" }]
    #[{ name := some "make", type := some 4 },
      { name := some "norm", type := some 4, selfType := some 1 }]
    #[{ tag := Tag.call, children := [4] }, { tag := Tag.callMethod, children := [5] },
      { tag := Tag.call, children := [6] },
      { tag := Tag.call, children := [7], attr := .own { type := some 1 } },
      { attr := .own { type := some 0, value := some 1 } }, { attr := .own { type := some 1 } },
      { attr := .own { type := some 2 } }, {}] .empty).get (by decide +kernel)

def pointCalls : List (NodeId × Naming) :=
  [(0, .expression), (1, .value), (2, .pointer), (3, .untyped)]

theorem names_of_mem_pointCalls :
    ∀ entry ∈ pointCalls, pointGraph.Names entry.1 1 entry.2 := by
  have hcallee : pointGraph.callee? 0 = some 4 ∧ pointGraph.callee? 1 = some 5 ∧
      pointGraph.callee? 2 = some 6 ∧ pointGraph.callee? 3 = some 7 := by decide +kernel
  have htype : (pointGraph.nodeAttr 4).type = some 0 ∧ (pointGraph.nodeAttr 5).type = some 1 ∧
      (pointGraph.nodeAttr 6).type = some 2 ∧ (pointGraph.nodeAttr 7).type = none := by
    decide +kernel
  simp only [pointCalls, List.forall_mem_cons]
  refine ⟨.expression hcallee.1 htype.1 (by decide +kernel) (by decide +kernel),
    .value hcallee.2.1 htype.2.1,
    .pointer hcallee.2.2.1 htype.2.2.1 (by decide +kernel) (by decide +kernel),
    .untyped (fun callee hgiven => ?_) (by decide +kernel), List.forall_mem_nil _⟩
  rw [← Option.some.inj (hcallee.2.2.2.symm.trans hgiven)]
  exact htype.2.2.2

theorem members_depend_on_type_of_point :
    pointGraph.IsPlainType 1 ∧
      ∀ entry ∈ pointCalls, pointGraph.Names entry.1 1 entry.2 ∧
        pointGraph.completions ⟨entry.1, [entry.1], none, none⟩ .method =
          [⟨"norm", "function"⟩] ∧
        pointGraph.completions ⟨entry.1, [entry.1], none, none⟩ .field =
          if entry.2.isValue then [⟨"x", "int64"⟩, ⟨"tag", ""⟩]
          else [⟨"make", "function"⟩, ⟨"norm", "function"⟩] := by
  have hplain : pointGraph.IsPlainType 1 := by
    rw [IsPlainType]
    decide +kernel
  have htags : ∀ entry ∈ pointCalls,
      (pointGraph.node entry.1).tag ∈ [Tag.call, Tag.callMethod] := by decide +kernel
  obtain ⟨methods, fields, hanging, -, -, -, hoffered⟩ :=
    pointGraph.members_depend_on_type 1 hplain
  have hcall : ∀ entry ∈ pointCalls,
      pointGraph.completions ⟨entry.1, [entry.1], none, none⟩ .method = methods ∧
      pointGraph.completions ⟨entry.1, [entry.1], none, none⟩ .field =
        if entry.2.isValue then fields else hanging := fun entry hentry =>
    hoffered ⟨entry.1, [entry.1], none, none⟩ entry.2 (htags entry hentry)
      (names_of_mem_pointCalls entry hentry)
  have hfirst := hcall (0, .expression) (by decide)
  have hsecond := hcall (1, .value) (by decide)
  have hmethods : methods = [⟨"norm", "function"⟩] := hfirst.1.symm.trans (by decide +kernel)
  have hfields : fields = [⟨"x", "int64"⟩, ⟨"tag", ""⟩] :=
    hsecond.2.symm.trans (by decide +kernel)
  have hhanging : hanging = [⟨"make", "function"⟩, ⟨"norm", "function"⟩] :=
    hfirst.2.symm.trans (by decide +kernel)
  rw [hmethods, hfields, hhanging] at hcall
  exact ⟨hplain, fun entry hentry => ⟨names_of_mem_pointCalls entry hentry, hcall entry hentry⟩⟩

end Graph

end EditorBridge
