/-
What the documents of a session go through.  A text that is kept takes the place of
the document together with what its analysis gave, and the editor is told of that
analysis; a text that cannot be analyzed leaves all as it was.  A query does to the
session what looking up its document does, and no more.
-/
import EditorBridge.Proofs.Effects
import EditorBridge.Proofs.Outcomes

namespace EditorBridge

/-- A text with what its analysis gave. -/
structure Entry where
  text : Text
  analysis : Analysis

/-- The document that an entry stands for. -/
def Entry.document (uri : Text) (entry : Entry) : Document :=
  ⟨uri, entry.text, entry.analysis.tree⟩

/-- All that the answers of a host may depend on: where names of other files are
looked for, and the calls made before. -/
structure Moment where
  root : Option Path
  calls : List Call

/-- The moment that a session has come to. -/
def Session.moment (s : Session) : Moment := ⟨s.root, s.calls⟩

/-- What the analysis of a text gives at a moment. -/
def Host.study (host : Host) (moment : Moment) (uri text : Text) : Except Fault Entry :=
  (host.examine moment.root moment.calls uri text).outcome.map fun analysis => ⟨text, analysis⟩

/-- What the text of a document gives when it is read at a moment and then analyzed. -/
def Host.load (host : Host) (moment : Moment) (uri : Text) : Except Fault Entry :=
  match host.read moment.calls uri with
  | .error fault => .error fault
  | .ok text => host.study ⟨moment.root, moment.calls ++ [Call.read uri]⟩ uri text

namespace Config

/-- What the editor is told about a document, which is nothing when it cannot be written. -/
def told (cfg : Config) (uri : Text) (diagnostics : List Diagnostic) : List Outgoing :=
  if cfg.publishes then (Outgoing.diagnostics uri diagnostics).written else []

/-- What comes of telling the editor about a document. -/
def telling (cfg : Config) (uri : Text) (diagnostics : List Diagnostic) : Except Fault Unit :=
  if cfg.publishes then (Outgoing.diagnostics uri diagnostics).sending else .ok ()

/-- The document that an entry has become, when the editor could be told of it. -/
def announced (cfg : Config) (uri : Text) (entry : Entry) : Except Fault Document :=
  (cfg.telling uri entry.analysis.diagnostics).map fun _ => entry.document uri

/-- The session in which an entry has become that of a document. -/
def kept (cfg : Config) (s : Session) (uri : Text) (entry : Entry) : Session :=
  { s with
    documents := s.documents.insert uri (entry.document uri)
    sent := s.sent ++ cfg.told uri entry.analysis.diagnostics }

/-- The session behind an analysis that was meant to be kept. -/
def stored (cfg : Config) (s : Session) (uri : Text) : Except Fault Entry → Session
  | .ok entry => cfg.kept s uri entry
  | .error _ => s

/-- The session behind the look-up of a document. -/
def visited (cfg : Config) (s : Session) (uri : Text) : Session :=
  match s.documents.get? uri with
  | some _ => s
  | none => cfg.stored s uri (cfg.host.load s.moment uri)

/-- The session in which a document is forgotten. -/
def dropped (cfg : Config) (s : Session) (uri : Text) : Session :=
  { s with documents := s.documents.erase uri, sent := s.sent ++ cfg.told uri [] }

open Serving

@[simp] theorem run_publish (cfg : Config) (uri : Text) (diagnostics : List Diagnostic)
    (s : Session) :
    (cfg.publish uri diagnostics).run s =
      (cfg.telling uri diagnostics, { s with
        sent := s.sent ++ cfg.told uri diagnostics
        log := s.log ++ (cfg.told uri diagnostics).map Outgoing.entry }) := by
  unfold publish told telling
  split
  · exact run_send _ s
  · simp only [run_pure, List.map_nil, List.append_nil]

theorem run_examine (cfg : Config) (uri text : Text) (s : Session) :
    (cfg.examine uri text).run s =
      ((cfg.host.examine s.root s.calls uri text).outcome,
        { s with
          calls := s.calls ++ (cfg.host.examine s.root s.calls uri text).calls
          log := s.log ++ (cfg.host.examine s.root s.calls uri text).log }) := by
  simp only [examine, run_bind, run_get, run_set, run_lift]

theorem quiet_examine (cfg : Config) (uri text : Text) : (cfg.examine uri text).Quiet := by
  intro s
  rw [run_examine]
  exact ⟨rfl, rfl, rfl, rfl, rfl⟩

theorem run_readText (cfg : Config) (uri : Text) (s : Session) :
    (cfg.readText uri).run s =
      (cfg.host.read s.calls uri, { s with calls := s.calls ++ [Call.read uri] }) := by
  simp only [readText, run_bind, run_get, run_set, run_lift]

theorem fst_run_refresh (cfg : Config) (uri text : Text) (s : Session) :
    ((cfg.refresh uri text).run s).1 = cfg.host.study s.moment uri text >>= cfg.announced uri := by
  simp only [refresh, run_bind, run_examine, Host.study, Session.moment]
  cases (cfg.host.examine s.root s.calls uri text).outcome with
  | error fault => rfl
  | ok analysis =>
      simp only [run_modify, run_note, run_publish, Except.map, ok_bind, announced]
      cases cfg.telling uri analysis.diagnostics with
      | error fault => rfl
      | ok done => rfl

/-- A text that is kept replaces the document and is told to the editor, unless its
analysis fails. -/
theorem alike_refresh (cfg : Config) (uri text : Text) (s : Session) :
    (cfg.stored s uri (cfg.host.study s.moment uri text)).Alike
      ((cfg.refresh uri text).run s).2 := by
  simp only [refresh, run_bind, run_examine, Host.study, Session.moment]
  cases (cfg.host.examine s.root s.calls uri text).outcome with
  | error fault => exact ⟨rfl, rfl, rfl, rfl, rfl⟩
  | ok analysis =>
      simp only [run_modify, run_note, run_publish]
      cases cfg.telling uri analysis.diagnostics with
      | error fault => exact ⟨rfl, rfl, rfl, rfl, rfl⟩
      | ok done => exact ⟨rfl, rfl, rfl, rfl, rfl⟩

/-- A text that is studied well is kept and told; with any other nothing is written. -/
theorem run_refresh_cases (cfg : Config) (uri text : Text) (s : Session) :
    (∃ entry t, cfg.host.study s.moment uri text = .ok entry ∧
      (cfg.refresh uri text).run s = (cfg.announced uri entry, t) ∧
      t.documents = s.documents.insert uri (entry.document uri) ∧
      t.sent = s.sent ++ cfg.told uri entry.analysis.diagnostics) ∨
    ∃ fault t, cfg.host.study s.moment uri text = .error fault ∧
      (cfg.refresh uri text).run s = (.error fault, t) ∧
      t.documents = s.documents ∧ t.sent = s.sent := by
  have houtcome := cfg.fst_run_refresh uri text s
  have halike := cfg.alike_refresh uri text s
  generalize (cfg.refresh uri text).run s = refreshed at houtcome halike ⊢
  rcases refreshed with ⟨outcome, t⟩
  cases hstudy : cfg.host.study s.moment uri text with
  | error fault =>
      rw [hstudy] at houtcome halike
      exact Or.inr ⟨fault, t, rfl, congrArg (·, t) houtcome, halike.documents, halike.sent⟩
  | ok entry =>
      rw [hstudy] at houtcome halike
      exact Or.inl ⟨entry, t, rfl, congrArg (·, t) houtcome, halike.documents, halike.sent⟩

theorem run_document_of_some (cfg : Config) {uri : Text} {s : Session} {document : Document}
    (hdocument : s.documents.get? uri = some document) :
    (cfg.document uri).run s = (.ok document, s) := by
  simp only [Config.document, run_bind, run_get, hdocument, run_pure]

/-- The look-up of a document that is not at hand reads its text and keeps it. -/
theorem run_document_of_none (cfg : Config) {uri : Text} {s : Session}
    (hdocument : s.documents.get? uri = none) :
    ((cfg.document uri).run s).1 = cfg.host.load s.moment uri >>= cfg.announced uri ∧
      (cfg.stored s uri (cfg.host.load s.moment uri)).Alike ((cfg.document uri).run s).2 := by
  simp only [Config.document, run_bind, run_get, hdocument, run_note, run_readText, Host.load]
  cases hread : cfg.host.read s.calls uri with
  | error fault =>
      simp only [Session.moment, hread]
      exact ⟨rfl, rfl, rfl, rfl, rfl, rfl⟩
  | ok text =>
      simp only [Session.moment, hread]
      -- the text is analyzed in a session whose calls end with the reading of it
      refine ⟨fst_run_refresh cfg uri text _, ?_⟩
      refine Session.Alike.trans ?_ (alike_refresh cfg uri text _)
      simp only [Session.moment]
      cases cfg.host.study ⟨s.root, s.calls ++ [Call.read uri]⟩ uri text with
      | error fault => exact ⟨rfl, rfl, rfl, rfl, rfl⟩
      | ok entry => exact ⟨rfl, rfl, rfl, rfl, rfl⟩

theorem alike_document (cfg : Config) (uri : Text) (s : Session) :
    (cfg.visited s uri).Alike ((cfg.document uri).run s).2 := by
  unfold visited
  cases hdocument : s.documents.get? uri with
  | some document =>
      rw [cfg.run_document_of_some hdocument]
  | none => exact (cfg.run_document_of_none hdocument).2

theorem quiet_probe (cfg : Config) (uri text : Text) : (cfg.probe uri text).Quiet := by
  apply (cfg.quiet_examine uri text).bind
  intro analysis
  exact (quiet_note _ _).bind fun _ => quiet_pure _

/-- A completion does to the session what looking up its document does: the trial
run behind it does not show. -/
theorem alike_complete (cfg : Config) (uri : Text) (line character : Int) (s : Session) :
    (cfg.visited s uri).Alike ((cfg.complete uri line character).run s).2 := by
  refine (cfg.alike_document uri s).trans (alike_run_bind _ ?_ s)
  intro document
  apply (quiet_lift _).bind
  intro offset
  apply (cfg.quiet_probe uri _).bind
  intro tree
  cases tree with
  | none => exact quiet_pure []
  | some tree =>
      simp only
      split
      · exact quiet_pure []
      · exact (quiet_note _ _).bind fun _ => quiet_pure _

theorem alike_completion (cfg : Config) (params : Params.PositionParams) (s : Session) :
    (cfg.visited s params.uri).Alike ((cfg.completion params).run s).2 := by
  refine (cfg.alike_complete params.uri _ _ s).trans (alike_run_bind (attempt _) ?_ s)
  intro outcome
  split
  · exact quiet_pure _
  · exact (quiet_note _ _).bind fun _ => quiet_pure _
  · exact quiet_throw _

theorem alike_find (cfg : Config) (params : Params.PositionParams) (s : Session) :
    (cfg.visited s params.uri).Alike ((cfg.find params).run s).2 := by
  refine (cfg.alike_document params.uri s).trans (alike_run_bind _ ?_ s)
  intro document
  split
  · exact quiet_pure _
  · split
    · exact (quiet_note _ _).bind fun _ => quiet_pure _
    · exact quiet_pure _

theorem alike_hover (cfg : Config) (params : Params.PositionParams) (s : Session) :
    (cfg.visited s params.uri).Alike ((cfg.hover params).run s).2 := by
  refine (cfg.alike_find params s).trans (alike_run_bind _ ?_ s)
  intro found
  split
  · exact quiet_pure _
  · exact quiet_lift _

/-- The links of what was located; to ask the host for another file does not show. -/
theorem run_links (cfg : Config) (document : Document) (tree : Tree) (location : Location)
    (s : Session) :
    ∃ t, (cfg.links document tree location).run s =
        (tree.definition location document.text.points document.uri (cfg.host.read s.calls), t) ∧
      s.Alike t := by
  simp only [links]
  split
  · simp only [run_bind, run_note, run_get]
    split
    · simp only [run_bind, run_set, run_lift]
      exact ⟨_, rfl, rfl, rfl, rfl, rfl, rfl⟩
    · exact ⟨_, run_lift _ _, rfl, rfl, rfl, rfl, rfl⟩
  · simp only [run_bind, run_get]
    split
    · simp only [run_bind, run_set, run_lift]
      exact ⟨_, rfl, rfl, rfl, rfl, rfl, rfl⟩
    · exact ⟨_, run_lift _ s, .refl s⟩

theorem alike_definition (cfg : Config) (params : Params.PositionParams) (s : Session) :
    (cfg.visited s params.uri).Alike ((cfg.definition params).run s).2 := by
  refine (cfg.alike_find params s).trans (alike_run_bind _ ?_ s)
  intro found
  split
  · exact quiet_pure _
  · intro t
    obtain ⟨u, hrun, halike⟩ := cfg.run_links _ _ _ t
    rw [hrun]
    exact halike

theorem alike_outline (cfg : Config) (uri : Text) (s : Session) :
    (cfg.visited s uri).Alike ((cfg.outline uri).run s).2 := by
  refine (cfg.alike_document uri s).trans (alike_run_bind _ ?_ s)
  intro document
  split
  · exact quiet_pure _
  · exact quiet_lift _

end Config

end EditorBridge
