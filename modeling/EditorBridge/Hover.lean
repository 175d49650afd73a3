/-
Hover text: what the attribute of a node says, in Markdown.  The text of a value
is followed by that of the declaration of its type, one level deep, and a method
call is described by what it calls, so that no circle of declarations is followed
for ever.
-/
import EditorBridge.Location
import EditorBridge.Visited

namespace EditorBridge

/-- What the type of an attribute says about the value it denotes. -/
inductive Category where
  | type
  | function
  | pointer
  | methodCall
  | value
  | unresolved
deriving DecidableEq, Repr

def Category.word : Category → String
  | .type => "type"
  | .function => "function"
  | .pointer => "pointer"
  | .methodCall => "method_call"
  | .value => "value"
  | .unresolved => "unresolved"

namespace Graph

def category (g : Graph) (attr : Attr) : Category :=
  match attr.type with
  | none => .unresolved
  | some type =>
      let info := g.typeInfo type
      if info.isType then .type
      else if info.isFunction then .function
      else if info.isPointer then .pointer
      else if attr.isMethod && attr.callee.isSome then .methodCall
      else .value

def codeBlock (text : Text) : Text := "```nelua\n" ++ text ++ "\n```"

/-- A heading: a word in bold and a name as code. -/
def heading (word name : Text) : Text := "**" ++ word ++ "** `" ++ name ++ "`\n"

def typeSummary (g : Graph) (header : Bool) (type : TypeId) : Text :=
  let info := g.typeInfo type
  (if header then heading "type" info.text else "") ++ codeBlock info.longText

def functionSummary (g : Graph) (header : Bool) (type : TypeId) (attr : Attr) : Text :=
  let func := g.typeInfo (attr.value.getD type)
  let head :=
    if header then
      heading (g.typeInfo type).kind.word ((nonempty? attr.name).getD func.text)
    else ""
  let body := match nonempty? func.signature with
    | some signature => codeBlock signature
    | none =>
        if attr.isBuiltin then "* builtin function\n" else "* unresolved function\n"
  head ++ body

def pointerSummary (g : Graph) (type : TypeId) : Text :=
  "**pointer**\n" ++ match (g.typeInfo type).subtype with
    | some subtype => g.typeSummary true subtype
    | none => ""

/-- The node that declares a type. -/
def declaration? (g : Graph) (type : TypeId) : Option NodeId := do
  let symbol ← (g.typeInfo type).symbol
  (g.symbol symbol).node

/-- All symbols, as attributes. -/
def symbolRefs (g : Graph) : List AttrRef := (List.range g.symbols.size).map .symbol

/-- How many steps a chain of method calls may still take. -/
def callBudget (g : Graph) (ref : AttrRef) (seen : List AttrRef) : Nat :=
  2 * remaining g.symbolRefs seen + match ref with
    | .node _ => 1
    | .symbol _ => if seen.contains ref then 1 else 0

/-- A symbol that calls another is one of the symbols of the graph. -/
theorem lt_size_of_callee (g : Graph) {id callee : SymbolId}
    (h : (g.attr (.symbol id)).callee = some callee) : id < g.symbols.size := by
  by_cases hid : id < g.symbols.size
  · exact hid
  · have hdefault : g.symbol id = default := by simp [symbol, Array.getD, hid]
    rw [attr, hdefault] at h
    exact nomatch h

/-- Following a call to a symbol not seen before uses up some of the budget. -/
theorem callBudget_lt (g : Graph) {ref : AttrRef} {seen : List AttrRef} {callee : SymbolId}
    (hcallee : (g.attr ref).callee = some callee)
    (hseen : seen.contains (AttrRef.symbol callee) = false) :
    g.callBudget (.symbol callee) (ref :: seen) < g.callBudget ref seen := by
  have hle := remaining_cons_le g.symbolRefs seen ref
  cases ref with
  | node id =>
      have hnew : (AttrRef.node id :: seen).contains (AttrRef.symbol callee) = false := by
        simp only [List.contains_cons, hseen, Bool.or_false]
        exact beq_false_of_ne (by simp)
      simp only [callBudget, hnew, Bool.false_eq_true, if_false]
      omega
  | symbol id =>
      by_cases hid : seen.contains (AttrRef.symbol id) = true
      · have hne : callee ≠ id := by
          rintro rfl
          rw [hid] at hseen
          exact nomatch hseen
        have hnew : (AttrRef.symbol id :: seen).contains (AttrRef.symbol callee) = false := by
          simp only [List.contains_cons, hseen, Bool.or_false]
          exact beq_false_of_ne (by simpa using hne)
        simp only [callBudget, hnew, hid, Bool.false_eq_true, if_false, if_true]
        omega
      · have hmem : AttrRef.symbol id ∈ g.symbolRefs :=
          List.mem_map_of_mem (List.mem_range.mpr (g.lt_size_of_callee hcallee))
        have hlt := remaining_cons_lt hmem (by simpa using hid)
        simp only [callBudget, hid]
        split <;> omega

/-- How many levels of declarations are shown behind a value. -/
def maxDepth : Int := 1

/-- The text of an attribute, empty when nothing is resolved.  `depth` counts the
declarations entered so far, and `seen` holds the attributes passed on the way. -/
def summary (g : Graph) (ref : AttrRef) (header : Bool) (depth : Int)
    (seen : List AttrRef) : Text :=
  match (g.attr ref).type with
  | none => ""
  | some type =>
      match g.category (g.attr ref) with
      | .unresolved => ""
      | .type => g.typeSummary header ((g.attr ref).value.getD type)
      | .function => g.functionSummary header type (g.attr ref)
      | .pointer => g.pointerSummary type
      | .methodCall =>
          match _hcallee : (g.attr ref).callee with
          | none => ""
          | some callee =>
              if _hseen : seen.contains (AttrRef.symbol callee) then ""
              else g.summary (.symbol callee) header depth (ref :: seen)
      | .value =>
          let head := if header then heading "value" (g.typeText type) else ""
          if _hdepth : depth < maxDepth then
            match g.declaration? type with
            | none => head
            | some node =>
                let nested := g.summary (g.attrRef node) false (depth + 1) (ref :: seen)
                if nested = "" then head else head ++ "\n" ++ nested
          else head
termination_by ((maxDepth - depth).toNat, g.callBudget ref seen)
decreasing_by
  · exact Prod.Lex.right _ (g.callBudget_lt _hcallee (by simpa using _hseen))
  · apply Prod.Lex.left
    omega

def hoverText (g : Graph) (id : NodeId) : Text := g.summary (g.attrRef id) true 0 []

end Graph

/-- What is shown over a node: a text, and the range it is about. -/
structure Hover where
  value : Text
  range : Option Range
deriving DecidableEq, Repr

/-- What is shown over a located node, when there is anything to show. -/
def Tree.hover (tree : Tree) (location : Location) (text : List CodePoint) :
    Except RangeError (Option Hover) :=
  let value := tree.graph.hoverText location.node
  if value = "" then .ok none
  else if (tree.graph.node location.node).isPlaced then
    (tree.graph.range text location.node).map fun range => some ⟨value, some range⟩
  else .ok (some ⟨value, none⟩)

end EditorBridge
