/-
What becomes of a position error.  A query about a place finds nothing when the place that
the editor names is no position of the document, and a completion finds nothing when such
an error arises anywhere in it.  But where the span of a node is converted for a hover or a
link, the error ends the query; with the nodes of the document in its text, that node is of
another file.
-/
import EditorBridge.Proofs.Messages
import EditorBridge.Proofs.Ranges

namespace EditorBridge

theorem mapError_ofRange_eq_iff {α : Type} {work : Except RangeError α} {cause : PositionError} :
    work.mapError Fault.ofRange = .error (.position cause) ↔ work = .error (.position cause) := by
  rw [mapError_eq_error_iff]
  constructor
  · rintro ⟨given | given | given, hwork, hgiven⟩
    · rw [hwork, Fault.position.inj hgiven]
    · exact nomatch hgiven
    · exact nomatch hgiven
  · intro hwork
    exact ⟨_, hwork, rfl⟩

/-- The queries about a place of a document. -/
inductive Query where
  | hover
  | definition
  | completion
deriving DecidableEq, Repr

namespace Query

def method : Query → Text
  | .hover => "textDocument/hover"
  | .definition => "textDocument/definition"
  | .completion => "textDocument/completion"

def request : Query → Request
  | .hover => .hover
  | .definition => .definition
  | .completion => .completion

def shape : Query → Params.Shape
  | .hover => Params.hoverShape
  | .definition => Params.definitionShape
  | .completion => Params.completionShape

/-- The result of a query that finds nothing. -/
def empty : Query → Json
  | .hover => .null
  | .definition => .arr []
  | .completion => .arr []

theorem lookup_method (query : Query) :
    Request.methods.lookup query.method = some query.request := by
  cases query with
  | _ => rfl

theorem action_eq (query : Query) (readers : Params.Readers) (params : Json) :
    Action.answer readers query.request params = Action.placed readers query.shape params := by
  cases query with
  | _ => rfl

end Query

/-- A node has a span that does not lie in the text. -/
def Graph.Misplaced (g : Graph) (text : List CodePoint) (id : NodeId) : Prop :=
  ∃ span, (g.node id).span = some span ∧ ¬span.Within text

/-- A node that has a place is refused as no range of the text only when it is misplaced. -/
theorem Graph.misplaced_of_range {g : Graph} {text : List CodePoint} {id : NodeId}
    {cause : PositionError} (hplaced : (g.node id).isPlaced = true)
    (hrange : g.range text id = .error (.position cause)) : g.Misplaced text id := by
  obtain ⟨span, hspan, hofSpan⟩ := Graph.range_of_isPlaced hplaced text
  exact ⟨span, hspan, Range.not_within_of_ofSpan (hofSpan.symm.trans hrange)⟩

namespace Tree

variable {tree : Tree} {location : Location} {text : List CodePoint} {cause : PositionError}

/-- Whether a node is of another file than the document. -/
def isForeign (tree : Tree) (uri : Text) (id : NodeId) : Bool :=
  Graph.liesElsewhere (tree.graph.node id).src (Uri.toPath uri).toOption

/-- A hover is refused as no position only when the located node is misplaced. -/
theorem misplaced_of_hover (hhover : tree.hover location text = .error (.position cause)) :
    tree.graph.Misplaced text location.node := by
  unfold hover at hhover
  dsimp only at hhover
  split at hhover
  · exact nomatch hhover
  · split at hhover
    next hplaced => exact Graph.misplaced_of_range hplaced (map_eq_error_iff.mp hhover)
    next => exact nomatch hhover

/-- What a link is made of has a place, and a declaration elsewhere is of another file. -/
theorem placed_of_destination {uri : Text} {found : Destination}
    (hfound : tree.destination location uri = .ok found) :
    match found with
    | .nowhere => True
    | .here target => (tree.graph.node target).isPlaced = true ∧
        (tree.graph.node location.node).isPlaced = true
    | .elsewhere _ target => (tree.graph.node target).isPlaced = true ∧
        (tree.graph.node location.node).isPlaced = true ∧ tree.isForeign uri target = true := by
  unfold destination at hfound
  dsimp only at hfound
  split at hfound
  next =>
      obtain rfl := Except.ok.inj hfound
      exact trivial
  next target _ =>
      split at hfound
      next =>
          obtain rfl := Except.ok.inj hfound
          exact trivial
      next hplaced =>
          simp only [Bool.or_eq_true, Bool.not_eq_true', not_or, Bool.not_eq_false] at hplaced
          split at hfound
          next =>
              obtain rfl := Except.ok.inj hfound
              exact hplaced
          next src hsrc =>
              obtain ⟨path, hpath, hfound⟩ := bind_eq_ok_iff.mp hfound
              split at hfound
              next hforeign =>
                  obtain ⟨other, -, hfound⟩ := bind_eq_ok_iff.mp hfound
                  obtain rfl := Except.ok.inj hfound
                  refine ⟨hplaced.1, hplaced.2, ?_⟩
                  rcases huri : Uri.toPath uri with cause | given
                  · rw [huri] at hpath
                    cases hpath
                  · rw [huri] at hpath
                    obtain rfl := Except.ok.inj hpath
                    rw [isForeign, hsrc, huri]
                    exact hforeign
              next =>
                  obtain rfl := Except.ok.inj hfound
                  exact hplaced

theorem definition_of_here {uri : Text} {target : NodeId} {read : Text → Except Fault Text}
    (hfound : tree.destination location uri = .ok (.here target)) :
    tree.definition location text uri read =
      ((tree.link location text uri text (some tree.root) target).mapError Fault.ofRange).map
        fun link => [link] := by
  rw [definition, hfound, ok_bind]
  exact bind_ok _ _

theorem definition_of_elsewhere {uri other otherText : Text} {target : NodeId}
    {read : Text → Except Fault Text}
    (hfound : tree.destination location uri = .ok (.elsewhere other target))
    (hread : read other = .ok otherText) :
    tree.definition location text uri read =
      ((tree.link location text other otherText.points none target).mapError Fault.ofRange).map
        fun link => [link] := by
  rw [definition, hfound, ok_bind]
  dsimp only
  rw [hread, ok_bind]
  exact bind_ok _ _

theorem destination_ne_position (tree : Tree) (location : Location) (uri : Text)
    (cause : PositionError) : tree.destination location uri ≠ .error (.position cause) := by
  intro hfound
  unfold destination at hfound
  dsimp only at hfound
  split at hfound
  · cases hfound
  · split at hfound
    · cases hfound
    · split at hfound
      · cases hfound
      · rcases bind_eq_error_iff.mp hfound with hpath | ⟨path, -, hfound⟩
        · obtain ⟨e, -, he⟩ := mapError_eq_error_iff.mp hpath
          cases he
        · split at hfound
          · rcases bind_eq_error_iff.mp hfound with hother | ⟨other, -, hfound⟩
            · obtain ⟨e, -, he⟩ := mapError_eq_error_iff.mp hother
              cases he
            · cases hfound
          · cases hfound

/-- A definition fails for a position only in a link, or because the reader of files fails
so. -/
theorem link_of_definition {uri : Text} {read : Text → Except Fault Text}
    (hread : ∀ other, read other ≠ .error (.position cause))
    (hdefinition : tree.definition location text uri read = .error (.position cause)) :
    (∃ target, tree.destination location uri = .ok (.here target) ∧
      tree.link location text uri text (some tree.root) target = .error (.position cause)) ∨
    ∃ other otherText target, tree.destination location uri = .ok (.elsewhere other target) ∧
      read other = .ok otherText ∧
      tree.link location text other otherText.points none target = .error (.position cause) := by
  rcases hfound : tree.destination location uri with fault | found
  · rw [definition, hfound] at hdefinition
    rw [Except.error.inj hdefinition] at hfound
    exact absurd hfound (tree.destination_ne_position location uri cause)
  · rcases found with _ | target | ⟨other, target⟩
    · rw [definition, hfound] at hdefinition
      exact nomatch hdefinition
    · rw [definition_of_here hfound] at hdefinition
      have hlink := mapError_ofRange_eq_iff.mp (map_eq_error_iff.mp hdefinition)
      exact Or.inl ⟨target, rfl, hlink⟩
    · rcases hgiven : read other with fault | otherText
      · rw [definition, hfound] at hdefinition
        change (read other >>= _) = _ at hdefinition
        rw [hgiven] at hdefinition
        rw [Except.error.inj hdefinition] at hgiven
        exact absurd hgiven (hread other)
      · rw [definition_of_elsewhere hfound hgiven] at hdefinition
        have hlink := mapError_ofRange_eq_iff.mp (map_eq_error_iff.mp hdefinition)
        exact Or.inr ⟨other, otherText, target, rfl, hgiven, hlink⟩

/-- A link is refused as no position only when what it is made of is misplaced. -/
theorem misplaced_of_link {targetUri : Text} {targetText : List CodePoint} {root : Option NodeId}
    {target : NodeId} (htarget : (tree.graph.node target).isPlaced = true)
    (hlocated : (tree.graph.node location.node).isPlaced = true)
    (hlink : tree.link location text targetUri targetText root target =
      .error (.position cause)) :
    tree.graph.Misplaced targetText target ∨
      (∃ block ∈ root, tree.graph.Misplaced targetText (tree.graph.around block target)) ∨
      tree.graph.Misplaced text location.node := by
  rcases bind_eq_error_iff.mp hlink with hselection | ⟨selection, -, hlink⟩
  · exact Or.inl (Graph.misplaced_of_range htarget hselection)
  · rcases bind_eq_error_iff.mp hlink with hrange | ⟨range, -, hlink⟩
    · rcases root with _ | block
      · exact Or.inl (Graph.misplaced_of_range htarget hrange)
      · rw [Graph.enclosingRange_eq] at hrange
        exact Or.inr (Or.inl ⟨block, rfl,
          Graph.misplaced_of_range (Graph.isPlaced_around htarget) hrange⟩)
    · rcases bind_eq_error_iff.mp hlink with horigin | ⟨origin, -, hlink⟩
      · exact Or.inr (Or.inr (Graph.misplaced_of_range hlocated horigin))
      · exact nomatch hlink

end Tree

namespace Document

/-- All nodes of the document that are of no other file lie in its text. -/
def Fits (document : Document) : Prop :=
  ∀ tree ∈ document.tree, ∀ id span, tree.isForeign document.uri id = false →
    (tree.graph.node id).span = some span → span.Within document.text.points

/-- Some node of another file does not lie in the text. -/
def Strays (document : Document) (text : List CodePoint) : Prop :=
  ∃ tree id, document.tree = some tree ∧ tree.isForeign document.uri id = true ∧
    tree.graph.Misplaced text id

theorem strays_of_misplaced {document : Document} (hfits : document.Fits) {tree : Tree}
    (htree : document.tree = some tree) {id : NodeId}
    (hmisplaced : tree.graph.Misplaced document.text.points id) :
    document.Strays document.text.points := by
  obtain ⟨span, hspan, hout⟩ := hmisplaced
  rcases hforeign : tree.isForeign document.uri id with _ | _
  · exact absurd (hfits tree htree id span hforeign hspan) hout
  · exact ⟨tree, id, htree, hforeign, span, hspan, hout⟩

end Document

/-- Where in a query a position error arises: when the position that the editor named is
decoded, anywhere in a completion, or when the span of a node is converted. -/
inductive Stage where
  | decoding
  | trial
  | conversion
deriving DecidableEq, Repr

namespace Config

open Serving

/-- A position error arises in a query about a place of a document that is at hand. -/
inductive PositionArises (cfg : Config) (s : Session) (document : Document)
    (place : Params.PositionParams) : Query → Stage → PositionError → Prop where
  | decoding {query : Query} {cause : PositionError}
      (hoffset : Position.toOffset document.text.points place.position.line
        place.position.character = .error cause) :
      PositionArises cfg s document place query .decoding cause
  | trial {cause : PositionError}
      (hcomplete : ((cfg.complete place.uri place.position.line place.position.character).run s).1 =
        .error (.position cause)) :
      PositionArises cfg s document place .completion .trial cause
  | located {tree : Tree} {offset : Nat} {location : Location} {cause : PositionError}
      (htree : document.tree = some tree)
      (hoffset : Position.toOffset document.text.points place.position.line
        place.position.character = .ok offset)
      (hlocation : tree.locationAt offset = some location)
      (hhover : tree.hover location document.text.points = .error (.position cause)) :
      PositionArises cfg s document place .hover .conversion cause
  | declared {tree : Tree} {offset : Nat} {location : Location} {target : NodeId}
      {cause : PositionError} (htree : document.tree = some tree)
      (hoffset : Position.toOffset document.text.points place.position.line
        place.position.character = .ok offset)
      (hlocation : tree.locationAt offset = some location)
      (hfound : tree.destination location document.uri = .ok (.here target))
      (hlink : tree.link location document.text.points document.uri document.text.points
        (some tree.root) target = .error (.position cause)) :
      PositionArises cfg s document place .definition .conversion cause
  | declaredElsewhere {tree : Tree} {offset : Nat} {location : Location} {other text : Text}
      {target : NodeId} {cause : PositionError} (htree : document.tree = some tree)
      (hoffset : Position.toOffset document.text.points place.position.line
        place.position.character = .ok offset)
      (hlocation : tree.locationAt offset = some location)
      (hfound : tree.destination location document.uri = .ok (.elsewhere other target))
      (hread : cfg.host.read s.calls other = .ok text)
      (hlink : tree.link location document.text.points other text.points none target =
        .error (.position cause)) :
      PositionArises cfg s document place .definition .conversion cause

/-- A span is refused in a conversion only when it is that of a node of another file. -/
theorem strays_of_arises {cfg : Config} {s : Session} {document : Document}
    {place : Params.PositionParams} {query : Query} {cause : PositionError}
    (hfits : document.Fits)
    (harises : cfg.PositionArises s document place query .conversion cause) :
    document.Strays document.text.points ∨
      ∃ other text, cfg.host.read s.calls other = .ok text ∧ document.Strays text.points := by
  cases harises with
  | located htree hoffset hlocation hhover =>
      exact Or.inl (Document.strays_of_misplaced hfits htree (Tree.misplaced_of_hover hhover))
  | declared htree hoffset hlocation hfound hlink =>
      obtain ⟨htarget, hlocated⟩ := Tree.placed_of_destination hfound
      rcases Tree.misplaced_of_link htarget hlocated hlink with
        hmisplaced | ⟨block, -, hmisplaced⟩ | hmisplaced
      · exact Or.inl (Document.strays_of_misplaced hfits htree hmisplaced)
      · exact Or.inl (Document.strays_of_misplaced hfits htree hmisplaced)
      · exact Or.inl (Document.strays_of_misplaced hfits htree hmisplaced)
  | declaredElsewhere htree hoffset hlocation hfound hread hlink =>
      obtain ⟨htarget, hlocated, hforeign⟩ := Tree.placed_of_destination hfound
      rcases Tree.misplaced_of_link htarget hlocated hlink with
        hmisplaced | ⟨block, hnone, -⟩ | hmisplaced
      · exact Or.inr ⟨_, _, hread, _, _, htree, hforeign, hmisplaced⟩
      · exact nomatch hnone
      · exact Or.inl (Document.strays_of_misplaced hfits htree hmisplaced)

section

variable {cfg : Config} {s : Session} {document : Document} {place : Params.PositionParams}
  (hdocument : s.documents.get? place.uri = some document)
include hdocument

theorem fst_find_eq_none (hnone : document.tree = none ∨
      ∃ cause, Position.toOffset document.text.points place.position.line
        place.position.character = .error cause) :
    ((cfg.find place).run s).1 = .ok none := by
  rw [find, run_bind, cfg.run_document_of_some hdocument]
  dsimp only
  rcases htree : document.tree with _ | tree
  · rfl
  · rcases hnone with hnone | ⟨cause, hoffset⟩
    · exact nomatch htree.symm.trans hnone
    · rw [hoffset]
      rfl

theorem run_find_of_offset {tree : Tree} (htree : document.tree = some tree) {offset : Nat}
    (hoffset : Position.toOffset document.text.points place.position.line
      place.position.character = .ok offset) :
    (cfg.find place).run s =
      (.ok ((tree.locationAt offset).map fun location => (document, tree, location)), s) := by
  rw [find, run_bind, cfg.run_document_of_some hdocument]
  dsimp only
  rw [htree, hoffset]
  rfl

theorem fst_complete_of_decoding {cause : PositionError}
    (hoffset : Position.toOffset document.text.points place.position.line
      place.position.character = .error cause) :
    ((cfg.complete place.uri place.position.line place.position.character).run s).1 =
      .error (.position cause) := by
  rw [complete, run_bind, cfg.run_document_of_some hdocument]
  dsimp only
  rw [run_bind, offsetOf, run_lift, hoffset]
  rfl

/-- What a hover gives for a position that is in the document. -/
theorem fst_hover_of_offset {tree : Tree} (htree : document.tree = some tree) {offset : Nat}
    (hoffset : Position.toOffset document.text.points place.position.line
      place.position.character = .ok offset) :
    ((cfg.hover place).run s).1 =
      match tree.locationAt offset with
      | none => .ok none
      | some location => (tree.hover location document.text.points).mapError Fault.ofRange := by
  rw [hover, run_bind, cfg.run_find_of_offset hdocument htree hoffset]
  rcases tree.locationAt offset with _ | location
  · rfl
  · exact congrArg Prod.fst (run_lift _ s)

/-- What a definition gives for a position that is in the document. -/
theorem fst_definition_of_offset {tree : Tree} (htree : document.tree = some tree) {offset : Nat}
    (hoffset : Position.toOffset document.text.points place.position.line
      place.position.character = .ok offset) :
    ((cfg.definition place).run s).1 =
      match tree.locationAt offset with
      | none => .ok []
      | some location => tree.definition location document.text.points document.uri
          (cfg.host.read s.calls) := by
  rw [definition, run_bind, cfg.run_find_of_offset hdocument htree hoffset]
  rcases tree.locationAt offset with _ | location
  · rfl
  · obtain ⟨t, hlinks, -⟩ := cfg.run_links document tree location s
    exact congrArg Prod.fst hlinks

end

theorem fst_run_bind_of_ok {α β : Type} {work : Serving α} {s : Session} {value : α}
    (hwork : (work.run s).1 = .ok value) (next : α → Serving β) :
    ((work >>= next).run s).1 = ((next value).run (work.run s).2).1 := by
  rw [run_bind]
  rcases hrun : work.run s with ⟨outcome, t⟩
  rw [hrun] at hwork
  obtain rfl : outcome = .ok value := hwork
  rfl

theorem fst_run_bind_pure {α β : Type} (work : Serving α) (result : α → β) (s : Session) :
    ((work >>= fun value => pure (result value)).run s).1 = (work.run s).1.map result := by
  rw [run_bind]
  rcases work.run s with ⟨outcome, t⟩
  cases outcome with
  | error fault => rfl
  | ok value => rfl

/-- The outcome of a query, by how the work on it ends. -/
theorem fst_answer (cfg : Config) (s : Session) {query : Query} {params : Json}
    {place : Params.PositionParams} (hplace : cfg.readers.place query.shape params = .ok place) :
    ((cfg.answer query.request params).run s).1 =
      match query with
      | .hover => ((cfg.hover place).run s).1.map fun shown => (shown.map Hover.toJson).getD .null
      | .definition =>
          ((cfg.definition place).run s).1.map fun links => .arr (links.map LocationLink.toJson)
      | .completion =>
          ((cfg.completion place).run s).1.map fun items =>
            .arr (items.map CompletionItem.toJson) := by
  cases query with
  | hover =>
      rw [Query.request, answer, show cfg.readers.place Params.hoverShape params = _ from hplace]
      exact fst_run_bind_pure (cfg.hover place) _ s
  | definition =>
      rw [Query.request, answer,
        show cfg.readers.place Params.definitionShape params = _ from hplace]
      exact fst_run_bind_pure (cfg.definition place) _ s
  | completion =>
      rw [Query.request, answer,
        show cfg.readers.place Params.completionShape params = _ from hplace]
      exact fst_run_bind_pure (cfg.completion place) _ s

/-- A completion finds nothing when a position error arises in it. -/
theorem fst_completion_of_error {cfg : Config} {s : Session} {place : Params.PositionParams}
    {cause : PositionError}
    (hcomplete : ((cfg.complete place.uri place.position.line place.position.character).run s).1 =
      .error (.position cause)) :
    ((cfg.completion place).run s).1 = .ok [] := by
  rw [completion, run_bind, run_attempt]
  dsimp only
  rw [hcomplete]
  rfl

theorem fst_completion_ne_position (cfg : Config) (s : Session) (place : Params.PositionParams)
    (cause : PositionError) : ((cfg.completion place).run s).1 ≠ .error (.position cause) := by
  rw [completion, run_bind, run_attempt]
  dsimp only
  rcases ((cfg.complete place.uri place.position.line place.position.character).run s).1 with
    fault | items
  · cases fault with
    | _ => exact fun h => nomatch h
  · exact fun h => nomatch h

section

variable {cfg : Config} {s : Session} {document : Document} {place : Params.PositionParams}
  {query : Query} {params : Json} {cause : PositionError}
  (hdocument : s.documents.get? place.uri = some document)
  (hplace : cfg.readers.place query.shape params = .ok place)
include hdocument hplace

/-- A position error that arises in a conversion ends the query, and any other one gives the
empty result. -/
theorem fst_answer_of_arises {stage : Stage}
    (harises : cfg.PositionArises s document place query stage cause) :
    ((cfg.answer query.request params).run s).1 =
      if stage = .conversion then .error (.position cause) else .ok query.empty := by
  rw [cfg.fst_answer s hplace]
  cases harises with
  | decoding hoffset =>
      have hfind := cfg.fst_find_eq_none hdocument (Or.inr ⟨_, hoffset⟩)
      cases query with
      | hover =>
          dsimp only
          rw [hover, fst_run_bind_of_ok hfind]
          rfl
      | definition =>
          dsimp only
          rw [definition, fst_run_bind_of_ok hfind]
          rfl
      | completion =>
          rw [fst_completion_of_error (cfg.fst_complete_of_decoding hdocument hoffset)]
          rfl
  | trial hcomplete =>
      rw [fst_completion_of_error hcomplete]
      rfl
  | located htree hoffset hlocation hhover =>
      dsimp only
      rw [fst_hover_of_offset hdocument htree hoffset, hlocation]
      dsimp only
      rw [hhover]
      rfl
  | declared htree hoffset hlocation hfound hlink =>
      dsimp only
      rw [fst_definition_of_offset hdocument htree hoffset, hlocation]
      dsimp only
      rw [Tree.definition_of_here hfound, hlink]
      rfl
  | declaredElsewhere htree hoffset hlocation hfound hread hlink =>
      dsimp only
      rw [fst_definition_of_offset hdocument htree hoffset, hlocation]
      dsimp only
      rw [Tree.definition_of_elsewhere hfound hread, hlink]
      rfl

/-- A query ends with a position error only when one arises in a conversion, unless the
reader of files fails with one. -/
theorem arises_of_fst_answer
    (hread : ∀ other, cfg.host.read s.calls other ≠ .error (.position cause))
    (hanswer : ((cfg.answer query.request params).run s).1 = .error (.position cause)) :
    cfg.PositionArises s document place query .conversion cause := by
  rw [cfg.fst_answer s hplace] at hanswer
  have hcompletion : query ≠ .completion := by
    rintro rfl
    exact cfg.fst_completion_ne_position s place cause (map_eq_error_iff.mp hanswer)
  -- a hover or a definition that finds nothing ends well
  have hfind : ¬(document.tree = none ∨ ∃ cause, Position.toOffset document.text.points
      place.position.line place.position.character = .error cause) := by
    intro hnone
    have hfind := cfg.fst_find_eq_none hdocument hnone
    cases query with
    | hover =>
        dsimp only at hanswer
        rw [hover, fst_run_bind_of_ok hfind] at hanswer
        exact nomatch hanswer
    | definition =>
        dsimp only at hanswer
        rw [definition, fst_run_bind_of_ok hfind] at hanswer
        exact nomatch hanswer
    | completion => exact hcompletion rfl
  rcases htree : document.tree with _ | tree
  · exact absurd (Or.inl htree) hfind
  · rcases hoffset : Position.toOffset document.text.points place.position.line
      place.position.character with e | offset
    · exact absurd (Or.inr ⟨e, hoffset⟩) hfind
    · cases query with
      | hover =>
          have hhover := map_eq_error_iff.mp hanswer
          rw [fst_hover_of_offset hdocument htree hoffset] at hhover
          rcases hlocation : tree.locationAt offset with _ | location
          · rw [hlocation] at hhover
            exact nomatch hhover
          · rw [hlocation] at hhover
            exact .located htree hoffset hlocation (mapError_ofRange_eq_iff.mp hhover)
      | definition =>
          have hdefinition := map_eq_error_iff.mp hanswer
          rw [fst_definition_of_offset hdocument htree hoffset] at hdefinition
          rcases hlocation : tree.locationAt offset with _ | location
          · rw [hlocation] at hdefinition
            exact nomatch hdefinition
          · rw [hlocation] at hdefinition
            rcases Tree.link_of_definition hread hdefinition with
              ⟨target, hfound, hlink⟩ | ⟨other, text, target, hfound, hgiven, hlink⟩
            · exact .declared htree hoffset hlocation hfound hlink
            · exact .declaredElsewhere htree hoffset hlocation hfound hgiven hlink
      | completion => exact absurd rfl hcompletion

end

/-- A message with an identifier asks for what its method says. -/
theorem handle_of_query (cfg : Config) {message : Json.Fields} {id : Json} {query : Query}
    (hmethod : Json.Fields.get? message "method" = some (.str query.method))
    (hid : Json.Fields.get? message "id" = some id) (hnull : id ≠ .null) :
    cfg.handle message = cfg.serveRequest id (.str query.method) (paramsOf message) := by
  rw [cfg.handle_of_method hmethod, hid]
  cases id with
  | null => exact absurd rfl hnull
  | _ => rfl

/-- The work on a query about a document that is at hand leaves the documents as they are and
sends nothing. -/
theorem answer_leaves (cfg : Config) {s : Session} {query : Query} {params : Json}
    {place : Params.PositionParams} {document : Document}
    (hplace : cfg.readers.place query.shape params = .ok place)
    (hdocument : s.documents.get? place.uri = some document) :
    ((cfg.answer query.request params).run s).2.documents = s.documents ∧
      ((cfg.answer query.request params).run s).2.sent = s.sent := by
  have hanswered := cfg.answer_performs query.request params s
  have hvisited : cfg.perform s (Action.answer cfg.readers query.request params) = s := by
    rw [query.action_eq, Action.placed, hplace]
    simp only [perform, visited, hdocument]
  rw [hvisited] at hanswered
  exact hanswered

/-- A query whose work has ended is answered with its outcome. -/
theorem handle_query (cfg : Config) {s : Session} {message : Json.Fields} {id : Json}
    {query : Query} {place : Params.PositionParams} {document : Document}
    (hmethod : Json.Fields.get? message "method" = some (.str query.method))
    (hid : Json.Fields.get? message "id" = some id) (hnull : id ≠ .null)
    (hplace : cfg.readers.place query.shape (paramsOf message) = .ok place)
    (hdocument : s.documents.get? place.uri = some document)
    (hordinary : ∀ fault, ((cfg.answer query.request (paramsOf message)).run
      (received s id query.method)).1 = .error fault → fault.isOrdinary = true) :
    ((cfg.handle message).run s).2.documents = s.documents ∧
      Concludes s [] (reply id ((cfg.answer query.request (paramsOf message)).run
        (received s id query.method)).1) ((cfg.handle message).run s) := by
  obtain ⟨t, hrun, hdocuments, hsent⟩ := cfg.run_serveRequest_known id query.lookup_method
    (paramsOf message) s hordinary
  have hreceived : (received s id query.method).documents.get? place.uri = some document :=
    hdocument
  obtain ⟨hkept, htold⟩ := cfg.answer_leaves hplace hreceived
  rw [hkept] at hdocuments
  rw [htold] at hsent
  rw [← cfg.handle_of_query hmethod hid hnull] at hrun
  refine ⟨by rw [hrun]; exact hdocuments, concludes_of_sending hrun ?_⟩
  rw [List.append_nil]
  exact hsent

/-- The answer to a query in which a position error arises: an internal error when it arises
in a conversion, and the empty result otherwise. -/
def answerTo (id : Json) (query : Query) (stage : Stage) (cause : PositionError) : Outgoing :=
  match stage with
  | .decoding | .trial => .response id query.empty
  | .conversion => .failure id (-32603) ("PositionError: " ++ cause.message) .null

theorem reply_position (id : Json) (cause : PositionError) :
    reply id (.error (.position cause)) =
      .failure id (-32603) ("PositionError: " ++ cause.message) .null := by
  have hkind : Text.ofString "PositionError" ++ Text.ofString ": " = "PositionError: " := rfl
  rw [← hkind]
  rfl

/-- An answer with the empty result can be written when the identifier can be. -/
theorem isWritable_empty {id : Json} (hid : id.Writable) (query : Query) :
    (Outgoing.response id query.empty).IsWritable := by
  refine Outgoing.isWritable_response_iff.mpr ⟨hid, ?_⟩
  cases query with
  | hover => exact .null
  | definition => exact .arr (List.forall_mem_nil _)
  | completion => exact .arr (List.forall_mem_nil _)

theorem handle_of_arises (cfg : Config) {s : Session} {message : Json.Fields} {id : Json}
    {query : Query} {place : Params.PositionParams} {document : Document} {stage : Stage}
    {cause : PositionError}
    (hmethod : Json.Fields.get? message "method" = some (.str query.method))
    (hid : Json.Fields.get? message "id" = some id) (hnull : id ≠ .null)
    (hplace : cfg.readers.place query.shape (paramsOf message) = .ok place)
    (hdocument : s.documents.get? place.uri = some document)
    (harises : cfg.PositionArises (received s id query.method) document place query stage cause) :
    ((cfg.handle message).run s).2.documents = s.documents ∧
      Concludes s [] (answerTo id query stage cause) ((cfg.handle message).run s) := by
  have harrived : (received s id query.method).documents.get? place.uri = some document :=
    hdocument
  have houtcome := fst_answer_of_arises harrived hplace harises
  have hconcludes := cfg.handle_query hmethod hid hnull hplace hdocument
    (by
      rw [houtcome]
      intro fault hfault
      split at hfault
      · obtain rfl := Except.error.inj hfault
        rfl
      · exact nomatch hfault)
  rw [houtcome] at hconcludes
  cases stage with
  | decoding => exact hconcludes
  | trial => exact hconcludes
  | conversion =>
      rw [if_pos rfl, reply_position] at hconcludes
      exact hconcludes

/-- When the position that the editor names is none of the document, or a position error
arises anywhere in a completion, the answer is the empty result, which is sent when the
identifier can be written.  A position error that arises where a span is converted is answered
as an internal error, and that span is one of another file.  No other position error ends a
query, when the reader of files does not. -/
theorem position_error_answers (cfg : Config) {s : Session} {message : Json.Fields} {id : Json}
    {query : Query} {place : Params.PositionParams} {document : Document}
    (hmethod : Json.Fields.get? message "method" = some (.str query.method))
    (hid : Json.Fields.get? message "id" = some id) (hnull : id ≠ .null)
    (hplace : cfg.readers.place query.shape (paramsOf message) = .ok place)
    (hdocument : s.documents.get? place.uri = some document) (hfits : document.Fits) :
    let arrived := received s id query.method
    let ended := (cfg.handle message).run s
    (∀ stage cause, cfg.PositionArises arrived document place query stage cause →
      ended.2.documents = s.documents ∧
        match stage with
        | .decoding | .trial =>
            Concludes s [] (.response id query.empty) ended ∧
            (id.Writable → (Outgoing.response id query.empty).IsWritable)
        | .conversion =>
            Concludes s [] (.failure id (-32603) ("PositionError: " ++ cause.message) .null) ended ∧
            (document.Strays document.text.points ∨
              ∃ other text, cfg.host.read s.calls other = .ok text ∧
                document.Strays text.points)) ∧
    ∀ cause, (∀ other, cfg.host.read s.calls other ≠ .error (.position cause)) →
      ((cfg.answer query.request (paramsOf message)).run arrived).1 = .error (.position cause) →
        cfg.PositionArises arrived document place query .conversion cause := by
  intro arrived ended
  have harrived : arrived.documents.get? place.uri = some document := hdocument
  refine ⟨fun stage cause harises => ?_, fun cause hread hanswer =>
    arises_of_fst_answer harrived hplace hread hanswer⟩
  obtain ⟨hdocuments, hconcludes⟩ :=
    cfg.handle_of_arises hmethod hid hnull hplace hdocument harises
  refine ⟨hdocuments, ?_⟩
  cases stage with
  | decoding => exact ⟨hconcludes, fun hwritable => isWritable_empty hwritable query⟩
  | trial => exact ⟨hconcludes, fun hwritable => isWritable_empty hwritable query⟩
  | conversion =>
      have hstrays := strays_of_arises hfits harises
      exact ⟨hconcludes, hstrays⟩

/-- A name that is declared at the tenth character of another file. -/
def linkedTree : Tree where
  graph := (Graph.ofTables? #[] #[{ node := some 1 }]
    #[{ tag := Tag.id, span := some ⟨0, 1⟩, attr := .symbol 0 },
      { tag := Tag.idDecl, span := some ⟨9, 10⟩, attr := .symbol 0, src := some "/lib.nelua" }]
    .empty).get (by decide +kernel)
  root := 0

def linkedDocument : Document := ⟨"file:///main.nelua", "f", some linkedTree⟩

theorem fits_linkedDocument : linkedDocument.Fits := by
  intro tree htree id span hown hspan
  obtain rfl : linkedTree = tree := Option.some.inj htree
  have hall : ∀ id < linkedTree.graph.nodes.size,
      linkedTree.isForeign linkedDocument.uri id = false →
        ∀ span ∈ (linkedTree.graph.node id).span, span.Within linkedDocument.text.points := by
    decide +kernel
  exact hall id (Graph.lt_size_of_span hspan) hown span hspan

/-- A host whose files all hold five characters. -/
def shortReader : Config where
  host := {
    parse := fun _ _ _ => .ok none
    analyze := fun _ tree _ => .ok tree
    read := fun _ _ => .ok "short" }

def linkedSession : Session where
  documents := Table.empty.insert linkedDocument.uri linkedDocument

/-- The request for the definition of what stands at the start of a line. -/
def definitionAt (line : Nat) : Json.Fields :=
  [("id", .int 1), ("method", .str "textDocument/definition"),
    ("params", .obj [("textDocument", .obj [("uri", .str linkedDocument.uri)]),
      ("position", .obj [("line", .int line), ("character", .int 0)])])]

theorem id_definitionAt (line : Nat) :
    Json.Fields.get? (definitionAt line) "id" = some (.int 1) := rfl

theorem int_ne_null : Json.int 1 ≠ .null := fun h => nomatch h

theorem get?_linkedSession :
    linkedSession.documents.get? linkedDocument.uri = some linkedDocument := rfl

theorem position_error_answers_far_line :
    shortReader.readers.place Query.definition.shape (paramsOf (definitionAt 5)) =
        .ok ⟨linkedDocument.uri, ⟨5, 0⟩⟩ ∧
      linkedSession.documents.get? linkedDocument.uri = some linkedDocument ∧
      linkedDocument.Fits ∧
      shortReader.PositionArises (received linkedSession (.int 1) "textDocument/definition")
        linkedDocument ⟨linkedDocument.uri, ⟨5, 0⟩⟩ .definition .decoding (.lineOutside 5 1) ∧
      ∃ t, (shortReader.handle (definitionAt 5)).run linkedSession = (.ok (), t) ∧
        t.documents = linkedSession.documents ∧ t.sent = [.response (.int 1) (.arr [])] := by
  have hplace : shortReader.readers.place Query.definition.shape (paramsOf (definitionAt 5)) =
      .ok ⟨linkedDocument.uri, ⟨5, 0⟩⟩ := rfl
  have harises : shortReader.PositionArises
      (received linkedSession (.int 1) "textDocument/definition") linkedDocument
      ⟨linkedDocument.uri, ⟨5, 0⟩⟩ .definition .decoding (.lineOutside 5 1) := .decoding rfl
  have hanswers := shortReader.position_error_answers rfl (id_definitionAt 5)
    int_ne_null hplace get?_linkedSession fits_linkedDocument
  obtain ⟨hdocuments, hconcludes, hwritable⟩ := hanswers.1 .decoding _ harises
  have hsendable := hwritable (.int (by decide +kernel))
  exact ⟨hplace, get?_linkedSession, fits_linkedDocument, harises, _,
    hconcludes.eq_of_isWritable hsendable, hdocuments, (hconcludes.sent hsendable).2⟩

/-- Not every position error is answered with an empty result: one that arises in the text
of another file, which is shorter than when it was analyzed, is an internal error. -/
theorem short_file_answers_internal_error :
    linkedSession.documents.get? linkedDocument.uri = some linkedDocument ∧
      linkedDocument.Fits ∧
      shortReader.PositionArises (received linkedSession (.int 1) "textDocument/definition")
        linkedDocument ⟨linkedDocument.uri, ⟨0, 0⟩⟩ .definition .conversion
        (.offsetOutside 9 5) ∧
      ∃ t, (shortReader.handle (definitionAt 0)).run linkedSession = (.ok (), t) ∧
        t.sent = [.failure (.int 1) (-32603)
          "PositionError: offset 9 is outside the document (0..5)" .null] := by
  have hstart : linkedTree.locationAt 0 =
      some { node := 0, nodes := [0], symbol := some 0 } := by cbv
  have hlocation : linkedTree.locationAt (0 : Nat) =
      some { node := 0, nodes := [0], symbol := some 0 } := hstart
  have hfound : linkedTree.destination { node := 0, nodes := [0], symbol := some 0 }
      linkedDocument.uri = .ok (.elsewhere "file:///lib.nelua" 1) :=
    eq_ok_of_toOption (by decide +kernel)
  have hlink : linkedTree.link { node := 0, nodes := [0], symbol := some 0 }
      linkedDocument.text.points "file:///lib.nelua" (Text.ofString "short").points none 1 =
        .error (.position (.offsetOutside 9 5)) := rfl
  have harises : shortReader.PositionArises
      (received linkedSession (.int 1) "textDocument/definition") linkedDocument
      ⟨linkedDocument.uri, ⟨0, 0⟩⟩ .definition .conversion (.offsetOutside 9 5) :=
    .declaredElsewhere rfl rfl hlocation hfound rfl hlink
  have hplace : shortReader.readers.place Query.definition.shape (paramsOf (definitionAt 0)) =
      .ok ⟨linkedDocument.uri, ⟨0, 0⟩⟩ := rfl
  have hmessage : Text.ofString "PositionError: " ++ (PositionError.offsetOutside 9 5).message =
      "PositionError: offset 9 is outside the document (0..5)" := by decide +kernel
  obtain ⟨-, hconcludes⟩ := shortReader.handle_of_arises rfl (id_definitionAt 0)
    int_ne_null hplace get?_linkedSession harises
  rw [answerTo, hmessage] at hconcludes
  have hsendable : Outgoing.IsWritable (.failure (.int 1) (-32603)
      "PositionError: offset 9 is outside the document (0..5)" .null) := by decide +kernel
  exact ⟨get?_linkedSession, fits_linkedDocument, harises, _,
    hconcludes.eq_of_isWritable hsendable, (hconcludes.sent hsendable).2⟩

end Config

end EditorBridge
