/-
Names that are visible from a scope.  Scopes are opened and filled call by call, and the calls
alone say what can be seen from a scope: the names declared in it and in the scopes around it,
each once and in the order in which it first came, inner scopes first, with the type of the last
symbol that the innermost scope declares under it.
-/
import EditorBridge.Completion
import Mathlib.Data.List.Induction
import Mathlib.Logic.Relation

namespace EditorBridge

/-- A name that comes again does not count. -/
theorem List.eraseDups_concat (xs : List Text) (x : Text) :
    (xs ++ [x]).eraseDups = if x ∈ xs then xs.eraseDups else xs.eraseDups ++ [x] := by
  rw [List.eraseDups_append]
  by_cases hx : x ∈ xs <;> simp [List.removeAll, List.eraseDups_cons, hx]

/-- Repeated names can be struck out of the later part first. -/
theorem List.eraseDups_append_eraseDups (xs ys : List Text) :
    (xs ++ ys.eraseDups).eraseDups = (xs ++ ys).eraseDups := by
  induction ys using List.reverseRecOn with
  | nil => rfl
  | append_singleton ys y ih =>
      rw [eraseDups_concat ys y, ← List.append_assoc, eraseDups_concat (xs ++ ys) y]
      by_cases hy : y ∈ ys
      · have hmem : y ∈ xs ++ ys := List.mem_append_right xs hy
        rw [if_pos hy, if_pos hmem, ih]
      · have hmem : y ∈ xs ++ ys.eraseDups ↔ y ∈ xs ++ ys := by
          rw [List.mem_append, List.mem_append, List.mem_eraseDups]
        rw [if_neg hy, ← List.append_assoc, eraseDups_concat (xs ++ ys.eraseDups) y, ih]
        exact if_congr hmem rfl rfl

namespace Table

variable {α β : Type}

theorem names_insert (table : Table α) (name : Text) (value : α) :
    (table.insert name value).names =
      if name ∈ table.names then table.names else table.names ++ [name] := by
  by_cases hmem : name ∈ table.entries.map Prod.fst
  · have hentries : (table.insert name value).entries = replace name value table.entries := by
      simp only [insert, hmem, dite_true]
    rw [names, hentries, map_fst_replace, names, if_pos hmem]
  · have hentries : (table.insert name value).entries = table.entries ++ [(name, value)] := by
      simp only [insert, hmem, dite_false]
    rw [names, hentries, List.map_append, names, if_neg hmem]
    rfl

theorem names_insertNew (table : Table α) (name : Text) (value : α) :
    (table.insertNew name value).names =
      if name ∈ table.names then table.names else table.names ++ [name] := by
  by_cases hmem : name ∈ table.names
  · rw [insertNew, contains, if_pos (List.contains_iff_mem.mpr hmem), if_pos hmem]
  · rw [insertNew, contains, if_neg (mt List.contains_iff_mem.mp hmem), names_insert]

theorem get?_insertNew (table : Table α) (name other : Text) (value : α) :
    (table.insertNew name value).get? other =
      (table.get? other).or (if other = name then some value else none) := by
  rw [insertNew, contains_eq_isSome_get?]
  by_cases hother : other = name
  · subst hother
    cases hget : table.get? other with
    | none => simp [get?_insert]
    | some old => simp [hget]
  · split
    · simp
    · simp [get?_insert, hother]

/-- A table that takes up the entries of another keeps what it has and adds the rest in order. -/
theorem names_foldl_insertNew (f : β → α) (entries : List (Text × β)) (found : Table α)
    (seen : List Text) (hfound : found.names = seen.eraseDups) :
    (entries.foldl (fun found entry => found.insertNew entry.1 (f entry.2)) found).names =
      (seen ++ entries.map Prod.fst).eraseDups := by
  induction entries generalizing found seen with
  | nil => rw [List.map_nil, List.append_nil, List.foldl_nil, hfound]
  | cons entry rest ih =>
      have hnext : (found.insertNew entry.1 (f entry.2)).names =
          (seen ++ [entry.1]).eraseDups := by
        simp only [names_insertNew, hfound, List.mem_eraseDups, List.eraseDups_concat]
      rw [List.foldl_cons, ih _ _ hnext, List.map_cons, List.append_assoc]
      rfl

theorem get?_foldl_insertNew (f : β → α) (entries : List (Text × β)) (found : Table α)
    (name : Text) :
    (entries.foldl (fun found entry => found.insertNew entry.1 (f entry.2)) found).get? name =
      (found.get? name).or
        ((entries.find? fun entry => entry.1 == name).map fun entry => f entry.2) := by
  induction entries generalizing found with
  | nil => simp
  | cons entry rest ih =>
      rw [List.foldl_cons, ih, get?_insertNew, Option.or_assoc]
      by_cases hname : entry.1 = name
      · simp [hname]
      · simp [List.find?_cons_of_neg, hname, Ne.symm hname]

end Table

namespace ScopeForest

theorem scope_push (forest : ScopeForest) (node : Option NodeId) (parent : Option ScopeId)
    (id : ScopeId) :
    (forest.push node parent).scope id =
      if id = forest.size then ⟨node, parent.filter (· < forest.size), .empty⟩
      else forest.scope id :=
  getD_push _ _ _

theorem scope_declare (forest : ScopeForest) {id : ScopeId} (hid : id < forest.size)
    (name : Text) (symbol : SymbolId) (other : ScopeId) :
    (forest.declare id name symbol).scope other =
      { forest.scope other with
        symbols := if other = id then (forest.scope id).symbols.insert name symbol
          else (forest.scope other).symbols } := by
  have hsome : forest.scopes[id]? = some forest.scopes[id] := Array.getElem?_eq_getElem hid
  by_cases hother : other = id
  · subst hother
    simp [declare, setSymbols, scope, Array.getElem?_modify, hsome]
  · simp [declare, setSymbols, scope, Array.getElem?_modify, hother, Ne.symm hother]

@[simp] theorem size_push (forest : ScopeForest) (node : Option NodeId)
    (parent : Option ScopeId) : (forest.push node parent).size = forest.size + 1 :=
  Array.size_push _

@[simp] theorem size_declare (forest : ScopeForest) (id : ScopeId) (name : Text)
    (symbol : SymbolId) : (forest.declare id name symbol).size = forest.size :=
  Array.size_modify

end ScopeForest

/-- The calls that opened and filled scopes, as many scopes being open as the index says.  A call
names open scopes only. -/
inductive ScopeHistory : Nat → Type where
  | start : ScopeHistory 0
  | enter {n : Nat} (past : ScopeHistory n) (node : Option NodeId) (parent : Option (Fin n)) :
      ScopeHistory (n + 1)
  | declare {n : Nat} (past : ScopeHistory n) (scope : Fin n) (symbol : SymbolId) :
      ScopeHistory n

namespace ScopeHistory

variable {n : Nat}

/-- The scopes that the calls leave.  A declaration that is refused leaves them as they are. -/
def forest (g : Graph) : {n : Nat} → ScopeHistory n → ScopeForest
  | _, start => .empty
  | _, enter past node parent => (past.forest g).push node (parent.map Fin.val)
  | _, declare past scope symbol =>
      match Graph.declare { g with scopes := past.forest g } scope symbol with
      | .ok after => after.scopes
      | .error _ => past.forest g

/-- The scope around a scope, as it was given when the scope was opened. -/
def parentOf : {n : Nat} → ScopeHistory n → ScopeId → Option ScopeId
  | _, start, _ => none
  | _, enter (n := opened) past _ parent, s =>
      if s = opened then parent.map Fin.val else past.parentOf s
  | _, declare past _ _, s => past.parentOf s

/-- What was declared in a scope, in order and with repetitions.  Symbols without a name cannot
be declared. -/
def declared (g : Graph) : {n : Nat} → ScopeHistory n → ScopeId → List (Text × SymbolId)
  | _, start, _ => []
  | _, enter past _ _, s => past.declared g s
  | _, declare past scope symbol, s =>
      past.declared g s ++
        if s = scope then (nonempty? (g.symbol symbol).name).toList.map (·, symbol) else []

def declaredNames (g : Graph) (history : ScopeHistory n) (s : ScopeId) : List Text :=
  (history.declared g s).map Prod.fst

/-- The last symbol declared in a scope under a name. -/
def lastUnder (g : Graph) (history : ScopeHistory n) (name : Text) (s : ScopeId) :
    Option SymbolId :=
  (((history.declared g s).filter fun entry => entry.1 == name).getLast?).map Prod.snd

/-- The first scope is the second or lies inside it. -/
def Inside (history : ScopeHistory n) : ScopeId → ScopeId → Prop :=
  Relation.ReflTransGen fun inner outer => history.parentOf inner = some outer

/-- The way from a scope to one that nothing lies around. -/
inductive Outward (history : ScopeHistory n) : ScopeId → List ScopeId → Prop where
  | last {s : ScopeId} (hlast : history.parentOf s = none) : Outward history s [s]
  | step {s outer : ScopeId} {path : List ScopeId} (hparent : history.parentOf s = some outer)
      (hpath : Outward history outer path) : Outward history s (s :: path)

theorem Outward.mem_iff {history : ScopeHistory n} {s : ScopeId} {path : List ScopeId}
    (houtward : history.Outward s path) (t : ScopeId) : t ∈ path ↔ history.Inside s t := by
  induction houtward with
  | last hlast =>
      rw [List.mem_singleton, Inside, Relation.ReflTransGen.cases_head_iff]
      constructor
      · exact fun h => Or.inl h.symm
      · rintro (h | ⟨outer, hparent, -⟩)
        · exact h.symm
        · rw [hlast] at hparent
          cases hparent
  | @step s outer path hparent _ ih =>
      rw [List.mem_cons, ih]
      constructor
      · rintro (rfl | hinside)
        · exact .refl
        · exact .head hparent hinside
      · intro hinside
        rcases hinside.cases_head with rfl | ⟨next, hnext, hinside⟩
        · exact Or.inl rfl
        · rw [hparent] at hnext
          cases hnext
          exact Or.inr hinside

theorem forest_declare (g : Graph) (past : ScopeHistory n) (scope : Fin n) (symbol : SymbolId) :
    (past.declare scope symbol).forest g =
      match nonempty? (g.symbol symbol).name with
      | none => past.forest g
      | some name => (past.forest g).declare scope name symbol := by
  have hname : Graph.symbol { g with scopes := past.forest g } symbol = g.symbol symbol := rfl
  rw [forest, Graph.declare, hname]
  cases nonempty? (g.symbol symbol).name with
  | none => rfl
  | some name => rfl

theorem size_forest (g : Graph) (history : ScopeHistory n) : (history.forest g).size = n := by
  induction history with
  | start => rfl
  | enter past node parent ih => rw [forest, ScopeForest.size_push, ih]
  | declare past scope symbol ih =>
      rw [forest_declare]
      split
      · exact ih
      · rw [ScopeForest.size_declare, ih]

theorem lt_size_forest (g : Graph) (history : ScopeHistory n) (s : Fin n) :
    s < (history.forest g).size :=
  Nat.lt_of_lt_of_eq s.isLt (history.size_forest g).symm

theorem parent_forest (g : Graph) (history : ScopeHistory n) (s : ScopeId) :
    ((history.forest g).scope s).parent = history.parentOf s := by
  induction history with
  | start => rfl
  | enter past node parent ih =>
      rw [forest, ScopeForest.scope_push, past.size_forest g, parentOf]
      split
      · cases parent with
        | none => rfl
        | some outer => simp
      · exact ih
  | declare past scope symbol ih =>
      rw [forest_declare, parentOf]
      split
      · exact ih
      · rw [ScopeForest.scope_declare _ (past.lt_size_forest g scope)]
        exact ih

/-- Nothing is declared in a scope that is not open yet. -/
theorem declared_of_le (g : Graph) (history : ScopeHistory n) {s : ScopeId} (hs : n ≤ s) :
    history.declared g s = [] := by
  induction history with
  | start => rfl
  | enter past node parent ih => exact ih (Nat.le_of_succ_le hs)
  | declare past scope symbol ih =>
      have hne : s ≠ scope := Nat.ne_of_gt (Nat.lt_of_lt_of_le scope.isLt hs)
      rw [declared, ih hs, if_neg hne, List.append_nil]

/-- The table has each name where it first came, with the symbol that came last. -/
structure Keeps (symbols : Table SymbolId) (entries : List (Text × SymbolId)) : Prop where
  names : symbols.names = (entries.map Prod.fst).eraseDups
  get? : ∀ name, symbols.get? name =
    ((entries.filter fun entry => entry.1 == name).getLast?).map Prod.snd

theorem Keeps.insert {symbols : Table SymbolId} {entries : List (Text × SymbolId)}
    (hkeeps : Keeps symbols entries) (name : Text) (symbol : SymbolId) :
    Keeps (symbols.insert name symbol) (entries ++ [(name, symbol)]) where
  names := by
    rw [Table.names_insert, hkeeps.names, List.map_append, List.map_singleton,
      List.eraseDups_concat]
    exact if_congr List.mem_eraseDups rfl rfl
  get? := by
    intro other
    rw [Table.get?_insert, hkeeps.get?, List.filter_append]
    by_cases hother : other = name
    · simp [hother]
    · simp [hother, Ne.symm hother]

theorem keeps_forest (g : Graph) (history : ScopeHistory n) (s : ScopeId) :
    Keeps ((history.forest g).scope s).symbols (history.declared g s) := by
  induction history with
  | start => exact ⟨rfl, fun _ => rfl⟩
  | enter past node parent ih =>
      rw [forest, ScopeForest.scope_push, past.size_forest g, declared]
      split
      next hs =>
          -- the scope that is opened now has been named by no call before
          rw [past.declared_of_le g (Nat.le_of_eq hs.symm)]
          exact ⟨rfl, fun _ => rfl⟩
      next => exact ih
  | declare past scope symbol ih =>
      rw [forest_declare, declared]
      cases nonempty? (g.symbol symbol).name with
      | none => simpa using ih
      | some name =>
          dsimp only
          rw [ScopeForest.scope_declare _ (past.lt_size_forest g scope)]
          by_cases hs : s = scope
          · subst hs
            simpa using ih.insert name symbol
          · simpa [hs] using ih

end ScopeHistory

namespace Graph

theorem names_addScope (g : Graph) {found : Table Text} {seen : List Text} {s : ScopeId}
    {declared : List Text} (hfound : found.names = seen.eraseDups)
    (hs : (g.scopes.scope s).symbols.names = declared.eraseDups) :
    (g.addScope found s).names = (seen ++ declared).eraseDups := by
  rw [addScope, Table.names_foldl_insertNew g.symbolDetail _ found seen hfound]
  change (seen ++ (g.scopes.scope s).symbols.names).eraseDups = _
  rw [hs, List.eraseDups_append_eraseDups]

theorem get?_addScope (g : Graph) (found : Table Text) (s : ScopeId) (name : Text) :
    (g.addScope found s).get? name =
      (found.get? name).or (((g.scopes.scope s).symbols.get? name).map g.symbolDetail) := by
  rw [addScope, Table.get?_foldl_insertNew, Table.get?.eq_1 (g.scopes.scope s).symbols,
    Option.map_map]
  rfl

theorem names_foldl_addScope (g : Graph) {declared : ScopeId → List Text}
    (hdeclared : ∀ s, (g.scopes.scope s).symbols.names = (declared s).eraseDups)
    (path : List ScopeId) (found : Table Text) (seen : List Text)
    (hfound : found.names = seen.eraseDups) :
    (path.foldl g.addScope found).names = (seen ++ path.flatMap declared).eraseDups := by
  induction path generalizing found seen with
  | nil => rw [List.foldl_nil, hfound, List.flatMap_nil, List.append_nil]
  | cons s outer ih =>
      rw [List.foldl_cons, ih _ _ (g.names_addScope hfound (hdeclared s)), List.flatMap_cons,
        List.append_assoc]

theorem get?_foldl_addScope (g : Graph) (path : List ScopeId) (found : Table Text)
    (name : Text) :
    (path.foldl g.addScope found).get? name =
      (found.get? name).or
        ((path.findSome? fun s => (g.scopes.scope s).symbols.get? name).map g.symbolDetail) := by
  induction path generalizing found with
  | nil => simp
  | cons s outer ih =>
      rw [List.foldl_cons, ih, get?_addScope, Option.or_assoc, List.findSome?_cons]
      cases (g.scopes.scope s).symbols.get? name with
      | none => rfl
      | some symbol => rfl

/-- What is offered for a bare name has no label twice. -/
theorem nodup_labels_of_bare (g : Graph) (location : Location) :
    ((g.completions location .bare).map CompletionItem.label).Nodup := by
  have hlabels : (g.completions location .bare).map CompletionItem.label =
      (g.choices location .bare).map Prod.fst := by
    rw [completions, List.map_map]
    rfl
  rw [hlabels, choices, if_pos rfl]
  cases location.scope with
  | none => exact List.nodup_nil
  | some scope => exact (g.visibleNames scope).distinct

end Graph

namespace ScopeHistory

variable {n : Nat}

/-- The way outward is walked to its end. -/
theorem outward_chain (g : Graph) (history : ScopeHistory n) (s : ScopeId) :
    history.Outward s ((history.forest g).chain s) := by
  induction s using Nat.strongRecOn with
  | _ s ih =>
      have hparent := history.parent_forest g s
      rw [ScopeForest.chain]
      split
      next outer houter =>
          have hlt : outer < s := (history.forest g).parent_lt s outer houter
          exact .step (hparent.symm.trans houter) (ih outer hlt)
      next hnone => exact .last (hparent.symm.trans hnone)

/-- What can be seen from a scope: the names of the scopes on the way outward, each where it
first comes. -/
theorem names_visibleNames (g : Graph) (history : ScopeHistory n) (s : ScopeId) :
    (Graph.visibleNames { g with scopes := history.forest g } s).names =
      (((history.forest g).chain s).flatMap (history.declaredNames g)).eraseDups :=
  Graph.names_foldl_addScope { g with scopes := history.forest g }
    (fun t => (history.keeps_forest g t).names) ((history.forest g).chain s) .empty [] rfl

/-- A name stands for the last symbol of the first scope on the way outward that declares it. -/
theorem get?_visibleNames (g : Graph) (history : ScopeHistory n) (s : ScopeId) (name : Text) :
    (Graph.visibleNames { g with scopes := history.forest g } s).get? name =
      (((history.forest g).chain s).findSome? (history.lastUnder g name)).map g.symbolDetail := by
  have hlast : (fun t => ((history.forest g).scope t).symbols.get? name) =
      history.lastUnder g name :=
    funext fun t => (history.keeps_forest g t).get? name
  rw [Graph.visibleNames, Graph.get?_foldl_addScope, Table.get?_empty, Option.none_or, hlast]
  rfl

/-- Completion of a bare name is lexical lookup.  For scopes opened and filled by whatever calls,
and every one of them: the way outward from it comes to an end; the names that are offered are
those declared on that way, each once, in the order in which they first came there, so a name is
offered exactly when the scope or one around it declares it; and the detail of a name is the type
of the last symbol that the innermost scope declares under it.  Nothing is offered twice, wherever
the name is asked for. -/
theorem bare_completion_is_lexical_lookup (g : Graph) (history : ScopeHistory n) (s : Fin n) :
    let built : Graph := { g with scopes := history.forest g }
    let path : List ScopeId := built.scopes.chain s
    history.Outward s path ∧
    (built.visibleNames s).names = (path.flatMap (history.declaredNames g)).eraseDups ∧
    (built.visibleNames s).names.Nodup ∧
    (∀ name, name ∈ (built.visibleNames s).names ↔
      ∃ t, history.Inside s t ∧ name ∈ history.declaredNames g t) ∧
    (∀ name, (built.visibleNames s).get? name =
      (path.findSome? (history.lastUnder g name)).map fun symbol =>
        g.typeText? (g.symbol symbol).type) ∧
    (∀ node nodes symbol, built.completions ⟨node, nodes, symbol, some s.val⟩ .bare =
      (built.visibleNames s).entries.map fun entry => ⟨entry.1, entry.2⟩) ∧
    ∀ location, ((built.completions location .bare).map CompletionItem.label).Nodup := by
  intro built path
  have houtward : history.Outward s path := history.outward_chain g s
  have hnames : (built.visibleNames s).names =
      (path.flatMap (history.declaredNames g)).eraseDups := history.names_visibleNames g s
  refine ⟨houtward, hnames, (built.visibleNames s).distinct, ?_,
    history.get?_visibleNames g s, fun _ _ _ => rfl, built.nodup_labels_of_bare⟩
  intro name
  rw [hnames, List.mem_eraseDups, List.mem_flatMap]
  exact exists_congr fun t => and_congr_left fun _ => houtward.mem_iff t

/-- The inner scope hides one name of the outer scope, and declares it twice. -/
example :
    let g := (Graph.ofTables? #[{ name := "int64" }, { name := "string" }]
      #[{ name := some "x" }, { name := some "y", type := some 0 },
        { name := some "y", type := some 1 }, { name := some "z", type := some 0 }]
      #[] .empty).get (by decide +kernel)
    let outer := ((start.enter none none).declare 0 0).declare 0 1
    let inner := (((outer.enter none (some 0)).declare 1 1).declare 1 3).declare 1 2
    (Graph.visibleNames { g with scopes := inner.forest g } 1).entries =
      ([("y", "string"), ("z", "int64"), ("x", "")] : List (Text × Text)) := by
  decide +kernel

end ScopeHistory

end EditorBridge
