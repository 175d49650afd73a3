/-
Answers about a token.  The range that comes with a hover, or with the origin of a link, is
that of the innermost node at the position that the editor named, and so lies around this
position.  A node with nothing below it is the innermost one wherever it covers an offset, so
that all positions in it get the same answer.
-/
import EditorBridge.Proofs.OutlineSelections
import EditorBridge.Proofs.PositionErrors

namespace EditorBridge

theorem Position.toJson_injective : Function.Injective Position.toJson := by
  rintro ⟨line, character⟩ ⟨otherLine, otherCharacter⟩ hjson
  simpa [Position.toJson, Int.natCast_inj] using hjson

theorem Range.toJson_injective : Function.Injective Range.toJson := by
  rintro ⟨start, stop⟩ ⟨otherStart, otherStop⟩ hjson
  simp only [Range.toJson, Json.obj.injEq, List.cons.injEq, Prod.mk.injEq, true_and,
    and_true] at hjson
  rw [Position.toJson_injective hjson.1, Position.toJson_injective hjson.2]

theorem Hover.get?_range (shown : Hover) :
    shown.toJson.get? "range" = shown.range.map Range.toJson := by
  rcases shown with ⟨value, _ | range⟩
  · rfl
  · rfl

theorem LocationLink.get?_origin (link : LocationLink) :
    link.toJson.get? "originSelectionRange" = some link.originSelectionRange.toJson := rfl

/-- The result of a query tells the range of what it is about: with a hover, or as the origin
of a link. -/
def Query.Marks (query : Query) (result : Json) (range : Range) : Prop :=
  match query with
  | .hover => result.get? "range" = some range.toJson
  | .definition => ∃ links link, result = .arr links ∧ link ∈ links ∧
      link.get? "originSelectionRange" = some range.toJson
  | .completion => False

/-- The range of a node that covers the offset of a position lies around the position. -/
theorem Graph.range_around {g : Graph} {text : List CodePoint} {id : NodeId} {p : Position}
    {offset : Nat} {range : Range}
    (hoffset : Position.toOffset text p.line p.character = .ok offset)
    (hcovers : (g.node id).covers offset = true) (hrange : g.range text id = .ok range) :
    range.start ≤ p ∧ p < range.stop := by
  obtain ⟨hinside, rfl⟩ := (Position.toOffset_natCast_iff text p offset).mp hoffset
  obtain ⟨span, hspan, hofSpan⟩ := Graph.ofSpan_of_range hrange
  obtain ⟨hstart, hstop⟩ := (Range.ofSpan_eq_ok_iff text span range).mp hofSpan
  obtain ⟨m, hm, -, -, hfirst, -⟩ := (Position.place_eq_ok_iff _ _ _).mp hstart
  obtain ⟨n, hn, hlength, -, hlast, -⟩ := (Position.place_eq_ok_iff _ _ _).mp hstop
  obtain ⟨covering, hsame, hfrom, hto⟩ := Node.covers_iff.mp hcovers
  obtain rfl := Option.some.inj (hspan.symm.trans hsame)
  rw [← hfirst, ← hlast]
  exact ⟨Position.behind_take_le (by omega) hinside, Position.behind_take_lt (by omega) hlength⟩

/-- The position is one of the document, and a node sits at its offset. -/
structure Document.Locates (document : Document) (p : Position) (tree : Tree)
    (location : Location) : Prop where
  held : document.tree = some tree
  located : ∃ offset, Position.toOffset document.text.points p.line p.character = .ok offset ∧
    tree.locationAt offset = some location

namespace Tree

variable {tree : Tree} {location : Location} {text : List CodePoint} {range : Range}

theorem range_of_hover {shown : Hover} (hhover : tree.hover location text = .ok (some shown))
    (hshown : shown.range = some range) : tree.graph.range text location.node = .ok range := by
  unfold hover at hhover
  dsimp only at hhover
  split at hhover
  · cases Except.ok.inj hhover
  · split at hhover
    next =>
        obtain ⟨given, hgiven, hmade⟩ := map_eq_ok_iff.mp hhover
        obtain rfl := Option.some.inj hmade
        obtain rfl := Option.some.inj hshown
        exact hgiven
    next =>
        obtain rfl := Option.some.inj (Except.ok.inj hhover)
        cases hshown

theorem origin_of_link {uri : Text} {targetText : List CodePoint} {root : Option NodeId}
    {target : NodeId} {link : LocationLink}
    (hlink : tree.link location text uri targetText root target = .ok link) :
    tree.graph.range text location.node = .ok link.originSelectionRange := by
  obtain ⟨selection, -, hlink⟩ := bind_eq_ok_iff.mp hlink
  obtain ⟨enclosing, -, hlink⟩ := bind_eq_ok_iff.mp hlink
  obtain ⟨origin, horigin, hlink⟩ := bind_eq_ok_iff.mp hlink
  obtain rfl := Except.ok.inj hlink
  exact horigin

/-- The origin of every link is the range of the located node. -/
theorem origin_of_definition {uri : Text} {read : Text → Except Fault Text}
    {links : List LocationLink} {link : LocationLink}
    (hlinks : tree.definition location text uri read = .ok links) (hlink : link ∈ links) :
    tree.graph.range text location.node = .ok link.originSelectionRange := by
  obtain ⟨found, hfound, hgiven⟩ := bind_eq_ok_iff.mp hlinks
  cases found with
  | nowhere =>
      obtain rfl := Except.ok.inj hgiven
      cases hlink
  | here target =>
      obtain ⟨made, hmade, hgiven⟩ := bind_eq_ok_iff.mp hgiven
      obtain rfl := Except.ok.inj hgiven
      obtain rfl := List.mem_singleton.mp hlink
      exact origin_of_link (mapError_eq_ok_iff.mp hmade)
  | elsewhere other target =>
      obtain ⟨otherText, -, hgiven⟩ := bind_eq_ok_iff.mp hgiven
      obtain ⟨made, hmade, hgiven⟩ := bind_eq_ok_iff.mp hgiven
      obtain rfl := Except.ok.inj hgiven
      obtain rfl := List.mem_singleton.mp hlink
      exact origin_of_link (mapError_eq_ok_iff.mp hmade)

/-- A node of the tree that has a place and nothing below it. -/
structure IsToken (tree : Tree) (id : NodeId) (span : Span) : Prop where
  inside : tree.graph.AtOrBelow id tree.root
  childless : tree.graph.children id = []
  placed : (tree.graph.node id).span = some span

/-- What is located in a token, without what lies around it. -/
def atToken (tree : Tree) (id : NodeId) : Location :=
  { node := id, nodes := [], symbol := tree.symbolAt id }

/-- Every offset in a token is located at the token. -/
theorem locationAt_of_isToken (hparts : tree.graph.Parts tree.root) {id : NodeId} {span : Span}
    (htoken : tree.IsToken id span) {offset : Int} (hcovers : span.Covers offset) :
    ∃ location, tree.locationAt offset = some location ∧ location.node = id ∧
      location.symbol = tree.symbolAt id := by
  have hcovered : tree.CoveredBy offset id :=
    ⟨htoken.inside, Node.covers_iff.mpr ⟨span, htoken.placed, hcovers⟩⟩
  have hinnermost : tree.InnermostAt offset id := by
    refine ⟨hcovered, fun below hbelow => ?_⟩
    obtain ⟨child, hchild, -⟩ := Graph.below_iff.mp hbelow
    rw [htoken.childless] at hchild
    cases hchild
  rcases hlocation : tree.locationAt offset with _ | location
  · exact absurd hcovered (locationAt_eq_none_iff.mp hlocation id)
  · obtain rfl := (innermostAt_iff hparts hlocation).mp hinnermost
    obtain ⟨leaf, -, rfl⟩ := Option.map_eq_some_iff.mp hlocation
    exact ⟨_, rfl, rfl, rfl⟩

/-- A hover depends on the located node only. -/
theorem hover_of_node {other : Location} (hnode : location.node = other.node)
    (text : List CodePoint) :
    tree.hover location text = tree.hover other text := by
  rw [hover, hover, hnode]

/-- A definition depends on the located node and its symbol only. -/
theorem definition_of_node {other : Location} (hnode : location.node = other.node)
    (hsymbol : location.symbol = other.symbol) (text : List CodePoint) (uri : Text)
    (read : Text → Except Fault Text) :
    tree.definition location text uri read = tree.definition other text uri read := by
  have hdestination : tree.destination location uri = tree.destination other uri := by
    rw [destination, destination, Graph.declaringNode?, Graph.declaringNode?, hnode, hsymbol]
  have hlink : tree.link location text = tree.link other text := by
    funext targetUri targetText root target
    rw [link, link, hnode]
  rw [definition, definition, hdestination, hlink]

/-- Over a token about which there is something to say, it is shown with the range of the
token. -/
theorem hover_of_isToken {id : NodeId} {span : Span} (htoken : tree.IsToken id span)
    (hwithin : span.Within text) (htext : Position.IsMeasurable text)
    (hspeaks : tree.graph.hoverText id ≠ "") :
    ∃ range, Range.ofSpan text span = .ok range ∧
      tree.hover (tree.atToken id) text = .ok (some ⟨tree.graph.hoverText id, some range⟩) := by
  obtain ⟨range, hrange⟩ := Range.exists_ofSpan htext hwithin
  have hplaced : (tree.graph.node id).isPlaced = true := by
    rw [Node.isPlaced, htoken.placed]
    rfl
  have hgiven : tree.graph.range text id = .ok range := by
    rw [Graph.range, Node.range, htoken.placed]
    exact hrange
  refine ⟨range, hrange, ?_⟩
  rw [hover, atToken]
  dsimp only
  rw [if_neg hspeaks, if_pos hplaced, hgiven]
  rfl

end Tree

/-- The range of the located node lies around the position. -/
theorem Document.Locates.range_around {document : Document} {p : Position} {tree : Tree}
    {location : Location} (hlocates : document.Locates p tree location) {range : Range}
    (hrange : tree.graph.range document.text.points location.node = .ok range) :
    range.start ≤ p ∧ p < range.stop := by
  obtain ⟨offset, hoffset, hlocation⟩ := hlocates.located
  exact Graph.range_around hoffset (Tree.innermostAt_of_locationAt hlocation).1.2 hrange

namespace Config

open Serving

section

variable {cfg : Config} {s : Session} {document : Document} {place : Params.PositionParams}
  (hdocument : s.documents.get? place.uri = some document)
include hdocument

theorem locates_or_find_eq_none :
    (∃ tree location, document.Locates place.position tree location) ∨
      ((cfg.find place).run s).1 = .ok none := by
  rcases htree : document.tree with _ | tree
  · exact Or.inr (cfg.fst_find_eq_none hdocument (Or.inl htree))
  · rcases hoffset : Position.toOffset document.text.points place.position.line
      place.position.character with cause | offset
    · exact Or.inr (cfg.fst_find_eq_none hdocument (Or.inr ⟨cause, hoffset⟩))
    · rcases hlocation : tree.locationAt offset with _ | location
      · rw [cfg.run_find_of_offset hdocument htree hoffset, hlocation]
        exact Or.inr rfl
      · exact Or.inl ⟨tree, location, htree, offset, hoffset, hlocation⟩

theorem fst_hover_of_locates {tree : Tree} {location : Location}
    (hlocates : document.Locates place.position tree location) :
    ((cfg.hover place).run s).1 =
      (tree.hover location document.text.points).mapError Fault.ofRange := by
  obtain ⟨htree, offset, hoffset, hlocation⟩ := hlocates
  rw [cfg.fst_hover_of_offset hdocument htree hoffset, hlocation]

theorem fst_definition_of_locates {tree : Tree} {location : Location}
    (hlocates : document.Locates place.position tree location) :
    ((cfg.definition place).run s).1 = tree.definition location document.text.points
      document.uri (cfg.host.read s.calls) := by
  obtain ⟨htree, offset, hoffset, hlocation⟩ := hlocates
  rw [cfg.fst_definition_of_offset hdocument htree hoffset, hlocation]

/-- The range of a hover is that of the located node. -/
theorem range_of_hover {shown : Hover} {range : Range}
    (hhover : ((cfg.hover place).run s).1 = .ok (some shown)) (hshown : shown.range = some range) :
    ∃ tree location, document.Locates place.position tree location ∧
      tree.graph.range document.text.points location.node = .ok range := by
  rcases cfg.locates_or_find_eq_none hdocument with ⟨tree, location, hlocates⟩ | hnone
  · rw [cfg.fst_hover_of_locates hdocument hlocates] at hhover
    exact ⟨tree, location, hlocates,
      Tree.range_of_hover (mapError_eq_ok_iff.mp hhover) hshown⟩
  · rw [hover, fst_run_bind_of_ok hnone] at hhover
    cases Except.ok.inj hhover

/-- The origin of a link is the range of the located node. -/
theorem origin_of_definition {links : List LocationLink} {link : LocationLink}
    (hdefinition : ((cfg.definition place).run s).1 = .ok links) (hlink : link ∈ links) :
    ∃ tree location, document.Locates place.position tree location ∧
      tree.graph.range document.text.points location.node = .ok link.originSelectionRange := by
  rcases cfg.locates_or_find_eq_none hdocument with ⟨tree, location, hlocates⟩ | hnone
  · rw [cfg.fst_definition_of_locates hdocument hlocates] at hdefinition
    exact ⟨tree, location, hlocates, Tree.origin_of_definition hdefinition hlink⟩
  · rw [definition, fst_run_bind_of_ok hnone] at hdefinition
    obtain rfl := Except.ok.inj hdefinition
    cases hlink

end

theorem eq_ok_of_reply {id result : Json} {outcome : Except Fault Json}
    (hreply : reply id outcome = .response id result) : outcome = .ok result := by
  rcases outcome with fault | given
  · cases fault with
    | _ => cases hreply
  · obtain ⟨-, rfl⟩ := Outgoing.response.inj hreply
    rfl

end Config

/-- A request about a place of a document that is at hand. -/
structure Inquiry (cfg : Config) (query : Query) (document : Document) where
  session : Session
  message : Json.Fields
  id : Json
  place : Params.PositionParams
  asks : Json.Fields.get? message "method" = some (.str query.method)
  named : Json.Fields.get? message "id" = some id
  awaits : id ≠ .null
  placed : cfg.readers.place query.shape (Config.paramsOf message) = .ok place
  atHand : session.documents.get? place.uri = some document

namespace Inquiry

open Config

variable {cfg : Config} {query : Query} {document : Document}
  {inquiry : Inquiry cfg query document}

/-- The place is a position of the document, with an offset in the span. -/
def PointsInto (inquiry : Inquiry cfg query document) (span : Span) : Prop :=
  ∃ offset, Position.toOffset document.text.points inquiry.place.position.line
    inquiry.place.position.character = .ok offset ∧ span.Covers offset

/-- A request is sent its reply, and nothing else. -/
def Replied (inquiry : Inquiry cfg query document) (outcome : Except Fault Json) : Prop :=
  ∃ t, (cfg.handle inquiry.message).run inquiry.session = (.ok (), t) ∧
    t.sent = inquiry.session.sent ++ [reply inquiry.id outcome]

/-- How a request is answered: with a result or a failure, unless the reply cannot be written
or a fault ends the work, when nothing is sent. -/
inductive Answered (inquiry : Inquiry cfg query document) : Except Fault Json → Prop where
  | replied {outcome : Except Fault Json} (hreplied : inquiry.Replied outcome) :
      Answered inquiry outcome
  | unwritten {outcome : Except Fault Json} {cause : Outgoing.WriteError} {t : Session}
      (hreply : ¬(reply inquiry.id outcome).IsWritable)
      (hrun : (cfg.handle inquiry.message).run inquiry.session = (.error (.ofWrite cause), t))
      (hsent : t.sent = inquiry.session.sent) :
      Answered inquiry outcome
  | interrupted {fault : Fault} {t : Session}
      (hrun : (cfg.handle inquiry.message).run inquiry.session = (.error fault, t))
      (hsent : t.sent = inquiry.session.sent) :
      Answered inquiry (.error fault)

/-- The session in which the work on a request starts. -/
def arrived (inquiry : Inquiry cfg query document) : Session :=
  received inquiry.session inquiry.id query.method

/-- How the work on a request ends. -/
def outcome (inquiry : Inquiry cfg query document) : Except Fault Json :=
  ((cfg.answer query.request (paramsOf inquiry.message)).run inquiry.arrived).1

theorem get?_arrived (inquiry : Inquiry cfg query document) :
    inquiry.arrived.documents.get? inquiry.place.uri = some document := inquiry.atHand

/-- The work on a request ends with a reply to be sent, or with a fault that ends it. -/
theorem concludes_or_interrupted (inquiry : Inquiry cfg query document) :
    Serving.Concludes inquiry.session [] (reply inquiry.id inquiry.outcome)
        ((cfg.handle inquiry.message).run inquiry.session) ∨
      ∃ fault t, inquiry.outcome = .error fault ∧
        (cfg.handle inquiry.message).run inquiry.session = (.error fault, t) ∧
        t.sent = inquiry.session.sent := by
  by_cases hordinary : ∀ fault, inquiry.outcome = .error fault → fault.isOrdinary = true
  · exact Or.inl (cfg.handle_query inquiry.asks inquiry.named inquiry.awaits inquiry.placed
      inquiry.atHand hordinary).2
  · simp only [Classical.not_forall, Bool.not_eq_true] at hordinary
    obtain ⟨fault, houtcome, hfault⟩ := hordinary
    have hrun := cfg.run_serveRequest_interrupted inquiry.id query.lookup_method
      (paramsOf inquiry.message) inquiry.session hfault houtcome
    rw [← cfg.handle_of_query inquiry.asks inquiry.named inquiry.awaits] at hrun
    exact Or.inr ⟨fault, _, houtcome, hrun,
      (cfg.answer_leaves inquiry.placed inquiry.get?_arrived).2⟩

theorem answered_outcome (inquiry : Inquiry cfg query document) :
    inquiry.Answered inquiry.outcome := by
  rcases inquiry.concludes_or_interrupted with hconcludes | ⟨fault, t, houtcome, hrun, hsent⟩
  · by_cases hwritable : (reply inquiry.id inquiry.outcome).IsWritable
    · have hsent := (hconcludes.sent hwritable).2
      rw [List.append_nil] at hsent
      exact .replied ⟨_, hconcludes.eq_of_isWritable hwritable, hsent⟩
    · obtain ⟨⟨cause, herror⟩, hsent⟩ := hconcludes.failed hwritable
      rw [List.append_nil] at hsent
      exact .unwritten hwritable (Prod.ext herror rfl) hsent
  · rw [houtcome]
    exact .interrupted hrun hsent

/-- An answer that can be written is sent. -/
theorem Answered.replied_of_isWritable {result : Json} (hanswered : inquiry.Answered (.ok result))
    (hwritable : (Outgoing.response inquiry.id result).IsWritable) :
    inquiry.Replied (.ok result) := by
  cases hanswered with
  | replied hreplied => exact hreplied
  | unwritten hreply => exact absurd hwritable hreply

/-- Only what the work ends with is sent as a result. -/
theorem outcome_of_replied {result : Json} (hreplied : inquiry.Replied (.ok result)) :
    inquiry.outcome = .ok result := by
  obtain ⟨t, hrun, hsent⟩ := hreplied
  rcases inquiry.concludes_or_interrupted with hconcludes | ⟨fault, u, -, hended, -⟩
  · rw [hrun] at hconcludes
    have hwritable := hconcludes.returns_iff.mp rfl
    have hsame := (hconcludes.sent hwritable).2.symm.trans hsent
    rw [List.append_nil] at hsame
    exact eq_ok_of_reply (List.head_eq_of_cons_eq (List.append_cancel_left hsame))
  · cases hrun.symm.trans hended

theorem outcome_hover (inquiry : Inquiry cfg .hover document) :
    inquiry.outcome = ((cfg.hover inquiry.place).run inquiry.arrived).1.map
      fun shown => (shown.map Hover.toJson).getD .null :=
  cfg.fst_answer inquiry.arrived inquiry.placed

theorem outcome_definition (inquiry : Inquiry cfg .definition document) :
    inquiry.outcome = ((cfg.definition inquiry.place).run inquiry.arrived).1.map
      fun links => .arr (links.map LocationLink.toJson) :=
  cfg.fst_answer inquiry.arrived inquiry.placed

/-- A range that comes with an answer is that of the located node. -/
theorem range_of_outcome {result : Json} {range : Range}
    (houtcome : inquiry.outcome = .ok result) (hmarks : query.Marks result range) :
    ∃ tree location, document.Locates inquiry.place.position tree location ∧
      tree.graph.range document.text.points location.node = .ok range := by
  cases query with
  | hover =>
      rw [outcome_hover] at houtcome
      obtain ⟨_ | shown, hhover, rfl⟩ := map_eq_ok_iff.mp houtcome
      · cases hmarks
      · have hshown := shown.get?_range.symm.trans hmarks
        obtain ⟨given, hgiven, hsame⟩ := Option.map_eq_some_iff.mp hshown
        obtain rfl := Range.toJson_injective hsame
        exact cfg.range_of_hover inquiry.get?_arrived hhover hgiven
  | definition =>
      rw [outcome_definition] at houtcome
      obtain ⟨links, hdefinition, hresult⟩ := map_eq_ok_iff.mp houtcome
      obtain ⟨shown, entry, rfl, hentry, horigin⟩ := hmarks
      obtain rfl := Json.arr.inj hresult
      obtain ⟨link, hlink, rfl⟩ := List.mem_map.mp hentry
      have hshown := link.get?_origin.symm.trans horigin
      obtain rfl := Range.toJson_injective (Option.some.inj hshown)
      exact cfg.origin_of_definition inquiry.get?_arrived hdefinition hlink
  | completion => exact hmarks.elim

section

variable {tree : Tree} {id : NodeId} {span : Span} (htree : document.tree = some tree)
  (hparts : tree.graph.Parts tree.root) (htoken : tree.IsToken id span)
include htree hparts htoken

theorem locates_of_isToken (hpoints : inquiry.PointsInto span) :
    ∃ location, document.Locates inquiry.place.position tree location ∧
      location.node = id ∧ location.symbol = tree.symbolAt id := by
  obtain ⟨offset, hoffset, hcovers⟩ := hpoints
  obtain ⟨location, hlocation, hnode, hsymbol⟩ := Tree.locationAt_of_isToken hparts htoken hcovers
  exact ⟨location, ⟨htree, offset, hoffset, hlocation⟩, hnode, hsymbol⟩

/-- A hover in a token is answered as one over the token, whatever lies around it. -/
theorem answered_hover_of_isToken (inquiry : Inquiry cfg .hover document)
    (hpoints : inquiry.PointsInto span) :
    inquiry.Answered
      (((tree.hover (tree.atToken id) document.text.points).mapError Fault.ofRange).map
        fun shown => (shown.map Hover.toJson).getD .null) := by
  obtain ⟨location, hlocates, hnode, -⟩ := locates_of_isToken htree hparts htoken hpoints
  have hanswered := inquiry.answered_outcome
  rwa [outcome_hover, cfg.fst_hover_of_locates inquiry.get?_arrived hlocates,
    Tree.hover_of_node (show location.node = (tree.atToken id).node from hnode)] at hanswered

/-- A definition in a token is answered as one for the token, when files are always read the
same. -/
theorem answered_definition_of_isToken
    (hread : ∀ calls others uri, cfg.host.read calls uri = cfg.host.read others uri)
    (inquiry : Inquiry cfg .definition document) (hpoints : inquiry.PointsInto span) :
    inquiry.Answered
      ((tree.definition (tree.atToken id) document.text.points document.uri (cfg.host.read [])).map
        fun links => .arr (links.map LocationLink.toJson)) := by
  obtain ⟨location, hlocates, hnode, hsymbol⟩ := locates_of_isToken htree hparts htoken hpoints
  have hsame : cfg.host.read inquiry.arrived.calls = cfg.host.read [] :=
    funext (hread inquiry.arrived.calls [])
  have hanswered := inquiry.answered_outcome
  rwa [outcome_definition, cfg.fst_definition_of_locates inquiry.get?_arrived hlocates, hsame,
    Tree.definition_of_node (show location.node = (tree.atToken id).node from hnode)
      hsymbol] at hanswered

end

end Inquiry

/-- A name in brackets that have no place, behind a character of two units. -/
def bracketedTree : Tree where
  graph := (Graph.ofTables? #[{ kind := .type, name := "T" }] #[{ type := some 0 }]
    #[{ tag := Tag.block, span := some ⟨0, 3⟩, children := [1] },
      { tag := "Paren", children := [2] },
      { tag := Tag.id, span := some ⟨1, 3⟩, attr := .symbol 0 }] .empty).get (by decide +kernel)
  root := 0

def bracketedDocument : Document := ⟨"file:///main.nelua", "😀ab", some bracketedTree⟩

/-- The request for what is to be shown at a character of the first line. -/
def hoverAt (character : Nat) : Json.Fields :=
  [("id", .int 1), ("method", .str "textDocument/hover"),
    ("params", .obj [("textDocument", .obj [("uri", .str bracketedDocument.uri)]),
      ("position", .obj [("line", .int 0), ("character", .int character)])])]

/-- The request, once its character has been read. -/
def askedAt (character : Nat) (hplace : Config.shortReader.readers.place Query.hover.shape
    (Config.paramsOf (hoverAt character)) = .ok ⟨bracketedDocument.uri, ⟨0, character⟩⟩) :
    Inquiry Config.shortReader .hover bracketedDocument where
  session := { documents := Table.empty.insert bracketedDocument.uri bracketedDocument }
  message := hoverAt character
  id := .int 1
  place := ⟨bracketedDocument.uri, ⟨0, character⟩⟩
  asks := rfl
  named := rfl
  awaits := Config.int_ne_null
  placed := hplace
  atHand := rfl

end EditorBridge
