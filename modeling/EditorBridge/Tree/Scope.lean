/-
Lexical scopes.  Scopes are opened one after another, each inside an earlier one
or inside none, and hold the symbols declared in them by name.
-/
import EditorBridge.Tree.Attr

namespace EditorBridge

/-- One scope.  A scope without a node holds names that are not declared in the
document. -/
structure Scope where
  node : Option NodeId := none
  parent : Option ScopeId := none
  symbols : Table SymbolId := .empty
deriving Inhabited

/-- All scopes of a tree, in the order in which they were opened. -/
structure ScopeForest where
  scopes : Array Scope
  parent_lt : ∀ id parent, (scopes.getD id default).parent = some parent → parent < id

namespace ScopeForest

def empty : ScopeForest := ⟨#[], fun _ _ h => nomatch h⟩

instance : Inhabited ScopeForest := ⟨empty⟩

def scope (forest : ScopeForest) (id : ScopeId) : Scope := forest.scopes.getD id default

def size (forest : ScopeForest) : Nat := forest.scopes.size

def ids (forest : ScopeForest) : List ScopeId := List.range forest.size

theorem getD_push (scopes : Array Scope) (added : Scope) (id : ScopeId) :
    (scopes.push added).getD id default =
      if id = scopes.size then added else scopes.getD id default := by
  simp only [Array.getD_eq_getD_getElem?, Array.getElem?_push]
  split <;> simp

/-- Open a scope.  The scope around it has to be one that is open already. -/
def push (forest : ScopeForest) (node : Option NodeId) (parent : Option ScopeId) :
    ScopeForest where
  scopes := forest.scopes.push ⟨node, parent.filter (· < forest.size), .empty⟩
  parent_lt := by
    intro id outer h
    rw [getD_push] at h
    split at h
    next hid =>
        rw [Option.filter_eq_some_iff] at h
        rw [hid]
        exact of_decide_eq_true h.2
    next => exact forest.parent_lt id outer h

def setSymbols (forest : ScopeForest) (id : ScopeId) (symbols : Table SymbolId) :
    ScopeForest where
  scopes := forest.scopes.modify id fun scope => { scope with symbols }
  parent_lt := by
    intro k outer h
    apply forest.parent_lt k outer
    simp only [Array.getD_eq_getD_getElem?, Array.getElem?_modify] at h ⊢
    split at h
    · cases hk : forest.scopes[k]? <;> simp_all
    · exact h

def declare (forest : ScopeForest) (id : ScopeId) (name : Text) (symbol : SymbolId) :
    ScopeForest :=
  forest.setSymbols id ((forest.scope id).symbols.insert name symbol)

/-- A scope and the scopes around it, innermost first. -/
def chain (forest : ScopeForest) (id : ScopeId) : List ScopeId :=
  match h : (forest.scope id).parent with
  | some outer =>
      have : outer < id := forest.parent_lt id outer h
      id :: forest.chain outer
  | none => [id]

/-- The scopes opened directly inside a scope, in order. -/
def inside (forest : ScopeForest) (id : ScopeId) : List ScopeId :=
  forest.ids.filter fun k => (forest.scope k).parent == some id

/-- The scope of a node: of several, the one opened last. -/
def ofNode? (forest : ScopeForest) (node : NodeId) : Option ScopeId :=
  forest.ids.reverse.find? fun k => (forest.scope k).node == some node

end ScopeForest

end EditorBridge
