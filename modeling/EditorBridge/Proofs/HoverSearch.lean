/-
The search for a hover text ends, whatever circles the types, symbols, attributes and nodes form.
A method call asks for the text of what it calls, and a value for that of the declaration of its
type.  A call uses up a symbol that was not passed before, or passes the same one a second time and
for the last; a declaration may meet all symbols again, but only so many declarations are entered.
-/
import EditorBridge.Proofs.HoverMeaning
import Mathlib.Tactic.ByContra

namespace EditorBridge

namespace Graph

/-- What is asked for in the search for a hover text: the text of an attribute, with its heading
or without, after some declarations were entered and some attributes passed. -/
structure Question where
  ref : AttrRef
  header : Bool
  depth : Int
  seen : List AttrRef

variable {g : Graph} {question next : Question}

/-- A question leads to another one: that for a method call to that for what it calls, unless this
was passed on the way, and that for a value to that for the declaration of its type, unless too
many declarations were entered. -/
inductive Asks (g : Graph) : Question → Question → Prop where
  | callee {ref : AttrRef} {header : Bool} {depth : Int} {seen : List AttrRef} {id : SymbolId}
      (hcallee : g.Calls ref (.symbol id)) (hnew : AttrRef.symbol id ∉ seen) :
      Asks g ⟨ref, header, depth, seen⟩ ⟨.symbol id, header, depth, ref :: seen⟩
  | declaration {ref : AttrRef} {header : Bool} {depth : Int} {seen : List AttrRef} {node : NodeId}
      (hnode : g.valueDeclaration? ref = some node) (hdepth : depth < maxDepth) :
      Asks g ⟨ref, header, depth, seen⟩ ⟨g.attrRef node, false, depth + 1, ref :: seen⟩

/-- The text of an attribute, given the text of what it asks for. -/
def textWith (g : Graph) (question : Question) (text : Text) : Text :=
  g.ownText question.header question.ref ++
    if g.category (g.attr question.ref) = .methodCall then text else onNewLine text

/-- The search for a text comes to an end after a number of questions. -/
inductive Answers (g : Graph) : Nat → Question → Text → Prop where
  | last {question : Question} (hlast : ∀ next, ¬g.Asks question next) :
      Answers g 1 question (g.ownText question.header question.ref)
  | asked {rounds : Nat} {question next : Question} {text : Text}
      (hnext : g.Asks question next) (hrest : Answers g rounds next text) :
      Answers g (rounds + 1) question (g.textWith question text)

/-- The text that a question is for. -/
def answer (g : Graph) (question : Question) : Text :=
  g.summary question.ref question.header question.depth question.seen

theorem ownText_of_methodCall {ref : AttrRef} {header : Bool}
    (hcall : g.category (g.attr ref) = .methodCall) : g.ownText header ref = "" := by
  rw [ownText, hcall]
  cases (g.attr ref).type with
  | none => rfl
  | some type => rfl

theorem category_of_valueDeclaration? {ref : AttrRef} {node : NodeId}
    (hnode : g.valueDeclaration? ref = some node) : g.category (g.attr ref) = .value := by
  by_contra hother
  rw [valueDeclaration?, if_neg hother] at hnode
  cases hnode

theorem answer_of_asks (hnext : g.Asks question next) :
    g.answer question = g.textWith question (g.answer next) := by
  cases hnext with
  | callee hcallee hnew =>
      rw [answer, summary_of_calls hcallee, if_neg (by simpa using hnew), textWith,
        if_pos hcallee.1, ownText_of_methodCall hcallee.1, Text.empty_append, answer]
  | @declaration ref header depth seen node hnode hdepth =>
      have hcall : g.category (g.attr ref) ≠ .methodCall := by
        rw [category_of_valueDeclaration? hnode]
        decide
      rw [answer, summary_of_declared hnode hdepth, textWith, if_neg hcall, answer]

theorem answer_of_last (hlast : ∀ next, ¬g.Asks question next) :
    g.answer question = g.ownText question.header question.ref := by
  obtain ⟨ref, header, depth, seen⟩ := question
  by_cases hcall : g.category (g.attr ref) = .methodCall
  · obtain ⟨callee, hcallee⟩ := exists_calls hcall
    obtain ⟨-, id, -, rfl⟩ := id hcallee
    -- nothing more is asked only because the called one was passed already
    have hpassed : AttrRef.symbol id ∈ seen := by
      by_contra hnew
      exact hlast _ (.callee hcallee hnew)
    rw [answer, summary_of_calls hcallee, if_pos (List.contains_iff_mem.mpr hpassed),
      ownText_of_methodCall hcall]
  · apply summary_of_plain hcall
    by_contra hmore
    obtain ⟨hsome, hdepth⟩ := not_or.mp hmore
    obtain ⟨node, hnode⟩ := Option.ne_none_iff_exists'.mp hsome
    exact hlast _ (.declaration hnode (Int.not_le.mp hdepth))

theorem callBudget_le (g : Graph) (ref : AttrRef) (seen : List AttrRef) :
    g.callBudget ref seen ≤ 2 * g.symbols.size + 1 := by
  have hremaining : remaining g.symbolRefs seen ≤ g.symbols.size := by
    rw [remaining]
    refine Nat.le_trans List.countP_le_length (Nat.le_of_eq ?_)
    rw [symbolRefs, List.length_map, List.length_range]
  unfold callBudget
  split
  next => omega
  next => split <;> omega

/-- How many questions may still come.  A declaration that may be entered weighs more than any chain
of calls, because behind it all symbols may be passed again. -/
def questionBudget (g : Graph) (question : Question) : Nat :=
  (maxDepth - question.depth).toNat * (2 * g.symbols.size + 2) +
    g.callBudget question.ref question.seen + 1

theorem questionBudget_lt (hnext : g.Asks question next) :
    g.questionBudget next < g.questionBudget question := by
  cases hnext with
  | @callee ref header depth seen id hcallee hnew =>
      obtain ⟨-, given, hgiven, hid⟩ := hcallee
      obtain rfl := AttrRef.symbol.inj hid
      have hlt := g.callBudget_lt hgiven (by simpa using hnew)
      simp only [questionBudget]
      omega
  | @declaration ref header depth seen node hnode hdepth =>
      have hlevels : (maxDepth - depth).toNat = (maxDepth - (depth + 1)).toNat + 1 := by omega
      have hcalls := g.callBudget_le (g.attrRef node) (ref :: seen)
      simp only [questionBudget, hlevels, Nat.succ_mul]
      omega

theorem wellFounded_asks (g : Graph) : WellFounded fun next question => g.Asks question next :=
  Subrelation.wf questionBudget_lt (measure g.questionBudget).wf

theorem answers_answer (g : Graph) (question : Question) :
    ∃ rounds ≤ g.questionBudget question, g.Answers rounds question (g.answer question) := by
  induction question using g.wellFounded_asks.induction with
  | _ question ih =>
      by_cases hlast : ∀ next, ¬g.Asks question next
      · rw [answer_of_last hlast]
        exact ⟨1, Nat.le_add_left 1 _, .last hlast⟩
      · obtain ⟨next, hnext⟩ := Classical.not_forall_not.mp hlast
        obtain ⟨rounds, hrounds, hrest⟩ := ih next hnext
        rw [answer_of_asks hnext]
        exact ⟨rounds + 1, Nat.lt_of_le_of_lt hrounds (questionBudget_lt hnext), .asked hnext hrest⟩

theorem Answers.eq_answer {rounds : Nat} {text : Text} (htext : g.Answers rounds question text) :
    text = g.answer question := by
  induction htext with
  | last hlast => exact (answer_of_last hlast).symm
  | asked hnext _ ih => rw [ih, answer_of_asks hnext]

/-- In every graph the search for a hover text ends, for every attribute, with its heading or
without, at every depth, and whatever was passed before: no question leads on for ever, and the
text is the one that is found.  For each declaration that may be entered, and once more, at most
twice as many questions come as there are symbols, and two. -/
theorem hover_search_ends (g : Graph) :
    (WellFounded fun next question => g.Asks question next) ∧
    ∀ (ref : AttrRef) (header : Bool) (depth : Int) (seen : List AttrRef) (text : Text),
      g.summary ref header depth seen = text ↔
        ∃ rounds ≤ ((maxDepth - depth).toNat + 1) * (2 * g.symbols.size + 2),
          g.Answers rounds ⟨ref, header, depth, seen⟩ text := by
  refine ⟨g.wellFounded_asks, fun ref header depth seen text => ⟨?_, ?_⟩⟩
  · rintro rfl
    obtain ⟨rounds, hrounds, htext⟩ := g.answers_answer ⟨ref, header, depth, seen⟩
    have hcalls := g.callBudget_le ref seen
    refine ⟨rounds, Nat.le_trans hrounds ?_, htext⟩
    simp only [questionBudget, Nat.succ_mul]
    omega
  · rintro ⟨rounds, -, htext⟩
    exact htext.eq_answer.symm

end Graph

end EditorBridge
