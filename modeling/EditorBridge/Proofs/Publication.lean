/-
What the editor shows about a document belongs to the document at hand.  The
diagnostics that were sent last for a URI are those of the very analysis whose tree
the document has, unless these could not be written; and for a URI without a document
nothing is left to show.
-/
import EditorBridge.Proofs.Announcements
import EditorBridge.Proofs.Ledger
import Mathlib.Data.List.Basic

namespace EditorBridge

/-- The URI and the diagnostics that a message to the editor publishes, as they stand
in its fields. -/
def Outgoing.published? (message : Outgoing) : Option (Text × List Json) :=
  match Json.Fields.get? message.fields "method", Json.Fields.get? message.fields "params" with
  | some (.str method), some params =>
      if method = "textDocument/publishDiagnostics" then
        match params.get? "uri", params.get? "diagnostics" with
        | some (.str uri), some (.arr list) => some (uri, list)
        | _, _ => none
      else none
  | _, _ => none

theorem Outgoing.published?_alert (message : Text) :
    (Outgoing.alert message).published? = none := by
  simp [published?, fields, notificationFields, version, Json.Fields.get?, optionalField,
    alertParams, Json.isNull]

theorem Outgoing.published?_diagnostics (uri : Text) (list : List Diagnostic) :
    (Outgoing.diagnostics uri list).published? = some (uri, list.map Diagnostic.toJson) := by
  simp [published?, fields, notificationFields, version, Json.Fields.get?, optionalField,
    diagnosticsParams, Json.isNull, Json.get?]

theorem Outgoing.published?_of_isAside {message : Outgoing} (haside : message.isAside = true) :
    message.published? = none := by
  cases message with
  | response id result => rfl
  | failure id code text data => rfl
  | alert text => exact published?_alert text
  | notification method params => exact nomatch haside
  | diagnostics uri list => exact nomatch haside

theorem Outgoing.filterMap_published?_asides {asides : List Outgoing}
    (hasides : ∀ message ∈ asides, message.isAside = true) :
    asides.filterMap Outgoing.published? = [] := by
  rw [List.filterMap_eq_nil_iff]
  intro message hmessage
  exact Outgoing.published?_of_isAside (hasides message hmessage)

namespace Session

/-- All that was published, in order. -/
def published (s : Session) : List (Text × List Json) := s.sent.filterMap Outgoing.published?

/-- The diagnostics that were published last for a URI. -/
def lastPublished (s : Session) (uri : Text) : Option (List Json) :=
  s.published.reverse.lookup uri

theorem lastPublished_append {s t : Session} {news : List (Text × List Json)}
    (hnews : t.published = s.published ++ news) (uri : Text) :
    t.lastPublished uri = (news.reverse.lookup uri).or (s.lastPublished uri) := by
  rw [lastPublished, hnews, List.reverse_append, List.lookup_append, lastPublished]

end Session

/-- The diagnostics of an analysis as they are published. -/
def Analysis.shown (analysis : Analysis) : List Json := analysis.diagnostics.map Diagnostic.toJson

/-- What is published of some diagnostics, which is nothing when they cannot be written. -/
def heard (uri : Text) (list : List Diagnostic) : List (Text × List Json) :=
  (Outgoing.diagnostics uri list).written.map fun _ => (uri, list.map Diagnostic.toJson)

theorem heard_of_isWritable {uri : Text} {list : List Diagnostic}
    (hwritable : (Outgoing.diagnostics uri list).IsWritable) :
    heard uri list = [(uri, list.map Diagnostic.toJson)] := by
  rw [heard, Outgoing.written_of_isWritable hwritable]
  rfl

theorem heard_of_not_isWritable {uri : Text} {list : List Diagnostic}
    (hwritable : ¬(Outgoing.diagnostics uri list).IsWritable) : heard uri list = [] := by
  obtain ⟨cause, -, hwritten⟩ := Outgoing.exists_sending_eq_error hwritable
  rw [heard, hwritten]
  rfl

/-- What is published when an analysis has ended: its diagnostics, unless it failed. -/
def announcement (uri : Text) : Except Fault Entry → List (Text × List Json)
  | .ok entry => heard uri entry.analysis.diagnostics
  | .error _ => []

namespace Config

open Serving

/-- What is published when an action is done.  A document that is at hand is looked up
without a word. -/
def news (cfg : Config) (s : Session) : Action → List (Text × List Json)
  | .write uri text => announcement uri (cfg.host.study s.moment uri text)
  | .forget uri => heard uri []
  | .visit uri =>
      match s.documents.get? uri with
      | some _ => []
      | none => announcement uri (cfg.host.load s.moment uri)
  | .idle => []

theorem filterMap_published?_told {cfg : Config} (hpublishes : cfg.publishes = true)
    (uri : Text) (list : List Diagnostic) :
    (cfg.told uri list).filterMap Outgoing.published? = heard uri list := by
  rw [told, if_pos hpublishes, heard, ← List.filterMap_eq_map]
  refine List.filterMap_congr fun message hmessage => ?_
  rw [Outgoing.eq_of_mem_written hmessage, Outgoing.published?_diagnostics]
  rfl

theorem published_stored {cfg : Config} (hpublishes : cfg.publishes = true) (s : Session)
    (uri : Text) (found : Except Fault Entry) :
    (cfg.stored s uri found).published = s.published ++ announcement uri found := by
  cases found with
  | error fault => exact (List.append_nil _).symm
  | ok entry =>
      change (s.sent ++ cfg.told uri entry.analysis.diagnostics).filterMap _ = _
      rw [List.filterMap_append, filterMap_published?_told hpublishes]
      rfl

theorem published_perform {cfg : Config} (hpublishes : cfg.publishes = true) (s : Session)
    (action : Action) :
    (cfg.perform s action).published = s.published ++ cfg.news s action := by
  cases action with
  | write uri text => exact published_stored hpublishes s uri _
  | forget uri =>
      change (s.sent ++ cfg.told uri []).filterMap _ = _
      rw [List.filterMap_append, filterMap_published?_told hpublishes]
      rfl
  | visit uri =>
      simp only [perform, visited, news]
      cases s.documents.get? uri with
      | some document => exact (List.append_nil _).symm
      | none => exact published_stored hpublishes s uri _
  | idle => exact (List.append_nil _).symm

/-- A message publishes what its action does, and no more. -/
theorem published_after {cfg : Config} (hpublishes : cfg.publishes = true) (s : Session)
    (message : Json.Fields) :
    (cfg.after s message).published =
      s.published ++ cfg.news s (Action.ofMessage cfg.readers message) := by
  obtain ⟨-, asides, hsent, hasides⟩ := cfg.handle_performs message s
  have hquiet := Outgoing.filterMap_published?_asides hasides
  rw [after, Session.published, hsent, List.filterMap_append, hquiet, List.append_nil]
  exact published_perform hpublishes s _

/-- An analysis that fails publishes nothing. -/
theorem published_refresh_error (cfg : Config) {uri text : Text} {s : Session} {fault : Fault}
    (hfault : ((cfg.examine uri text).run s).1 = .error fault) :
    ((cfg.refresh uri text).run s).2.published = s.published := by
  have halike := cfg.alike_refresh uri text s
  rw [run_examine] at hfault
  have houtcome : (cfg.host.examine s.root s.calls uri text).outcome = .error fault := hfault
  have hstudy : cfg.host.study s.moment uri text = .error fault := by
    simp only [Host.study, Session.moment, houtcome, Except.map]
  rw [hstudy] at halike
  rw [Session.published, halike.sent]
  rfl

end Config

/-- What an analysis gives has ranges that the protocol takes. -/
theorem Host.Gives.nameable {host : Host} {moment : Moment} {uri text : Text} {analysis : Analysis}
    (hgives : host.Gives moment uri text analysis) :
    ∀ diagnostic ∈ analysis.diagnostics, diagnostic.range.IsNameable := by
  intro diagnostic hmem
  cases hgives with
  | analyzed hpath hparse hanalyze => exact absurd hmem List.not_mem_nil
  | unparsed hpath hparse hreport => exact (Diagnostic.nameable_of_ofReport hreport hmem).1
  | unresolved hpath hparse hanalyze hreport =>
      exact (Diagnostic.nameable_of_ofReport hreport hmem).1

theorem Host.gives_of_study {host : Host} {moment : Moment} {uri text : Text} {entry : Entry}
    (h : host.study moment uri text = .ok entry) :
    ∃ moment, host.Gives moment uri entry.text entry.analysis := by
  obtain ⟨rfl, hgives⟩ := (host.study_eq_ok_iff moment uri text entry).mp h
  exact ⟨moment, hgives⟩

theorem Host.gives_of_load {host : Host} {moment : Moment} {uri : Text} {entry : Entry}
    (h : host.load moment uri = .ok entry) :
    ∃ moment, host.Gives moment uri entry.text entry.analysis := by
  unfold Host.load at h
  split at h
  next => exact nomatch h
  next => exact Host.gives_of_study h

/-- Whatever was published could be written. -/
def Session.PublishesWritable (s : Session) : Prop :=
  ∀ uri shown, (uri, shown) ∈ s.published →
    ∃ list : List Diagnostic, shown = list.map Diagnostic.toJson ∧
      (Outgoing.diagnostics uri list).IsWritable

namespace Session

theorem publishesWritable_heard {uri : Text} {list : List Diagnostic} {other : Text}
    {shown : List Json} (hshown : (other, shown) ∈ heard uri list) :
    ∃ list : List Diagnostic, shown = list.map Diagnostic.toJson ∧
      (Outgoing.diagnostics other list).IsWritable := by
  by_cases hwritable : (Outgoing.diagnostics uri list).IsWritable
  · rw [heard_of_isWritable hwritable, List.mem_singleton] at hshown
    obtain ⟨rfl, rfl⟩ := Prod.mk.inj hshown
    exact ⟨list, rfl, hwritable⟩
  · rw [heard_of_not_isWritable hwritable] at hshown
    exact absurd hshown List.not_mem_nil

theorem publishesWritable_announcement {uri : Text} {found : Except Fault Entry} {other : Text}
    {shown : List Json} (hshown : (other, shown) ∈ announcement uri found) :
    ∃ list : List Diagnostic, shown = list.map Diagnostic.toJson ∧
      (Outgoing.diagnostics other list).IsWritable := by
  cases found with
  | error fault => exact absurd hshown List.not_mem_nil
  | ok entry => exact publishesWritable_heard hshown

theorem publishesWritable_append {cfg : Config} {s t : Session} (hs : s.PublishesWritable)
    {action : Action} (hnews : t.published = s.published ++ cfg.news s action) :
    t.PublishesWritable := by
  intro uri shown hshown
  rw [hnews, List.mem_append] at hshown
  rcases hshown with hold | hnew
  · exact hs uri shown hold
  · cases action with
    | write other text => exact publishesWritable_announcement hnew
    | forget other => exact publishesWritable_heard hnew
    | visit other =>
        simp only [Config.news] at hnew
        split at hnew
        · exact absurd hnew List.not_mem_nil
        · exact publishesWritable_announcement hnew
    | idle => exact absurd hnew List.not_mem_nil

/-- Diagnostics that cannot be written were never published. -/
theorem not_mem_published {s : Session} (hs : s.PublishesWritable) {uri : Text}
    {list : List Diagnostic} (hwritable : ¬(Outgoing.diagnostics uri list).IsWritable) :
    (uri, list.map Diagnostic.toJson) ∉ s.published := by
  intro hpublished
  obtain ⟨other, hshown, hother⟩ := hs _ _ hpublished
  refine hwritable ?_
  rw [Outgoing.IsWritable, Outgoing.fields, Outgoing.diagnosticsParams, hshown]
  exact hother

/-- Nothing is ever published for a URI that cannot be written. -/
theorem lastPublished_eq_none {s : Session} (hs : s.PublishesWritable) {uri : Text}
    (hwritable : ¬(Outgoing.diagnostics uri []).IsWritable) : s.lastPublished uri = none := by
  rw [lastPublished, List.lookup_eq_none_iff]
  rintro ⟨other, shown⟩ hmem
  rw [bne_iff_ne]
  rintro rfl
  obtain ⟨list, -, hlist⟩ := hs _ shown (List.mem_reverse.mp hmem)
  exact hwritable (Outgoing.isWritable_diagnostics_nil hlist)

end Session

namespace Ledger

/-- What was published last for a URI is what its entry shows, if that can be written;
without an entry it is nothing at all, or the empty list. -/
def Shows (uri : Text) (last : Option (List Json)) : Option Entry → Prop
  | some entry => (Outgoing.diagnostics uri entry.analysis.diagnostics).IsWritable →
      last = some entry.analysis.shown
  | none => last = none ∨ last = some []

/-- What was published last for each URI is what its entry in the ledger shows. -/
def Shown (ledger : Ledger) (s : Session) : Prop :=
  ∀ uri, Shows uri (s.lastPublished uri) (ledger uri)

/-- Each entry of the ledger is what one analysis of its text gave. -/
def Studied (host : Host) (ledger : Ledger) : Prop :=
  ∀ uri entry, ledger uri = some entry →
    ∃ moment, host.Gives moment uri entry.text entry.analysis

theorem shown_of_append_nil {ledger : Ledger} {s t : Session} (hshown : ledger.Shown s)
    (hnews : t.published = s.published ++ []) : ledger.Shown t := by
  intro uri
  rw [Session.lastPublished_append hnews]
  exact hshown uri

/-- What is published for one URI is all that changes. -/
theorem shows_publish {ledger : Ledger} {s t : Session} (hshown : ledger.Shown s) {uri : Text}
    {list : List Diagnostic} (hnews : t.published = s.published ++ heard uri list)
    {new : Option Entry}
    (hnew : (Outgoing.diagnostics uri list).IsWritable →
      Shows uri (some (list.map Diagnostic.toJson)) new)
    (hold : ¬(Outgoing.diagnostics uri list).IsWritable → Shows uri (s.lastPublished uri) new)
    (other : Text) :
    Shows other (t.lastPublished other) (if other = uri then new else ledger other) := by
  rw [Session.lastPublished_append hnews]
  by_cases hwritable : (Outgoing.diagnostics uri list).IsWritable
  · rw [heard_of_isWritable hwritable, List.reverse_singleton, List.lookup_cons]
    by_cases hother : other = uri
    · subst hother
      simpa using hnew hwritable
    · rw [beq_eq_false_iff_ne.mpr hother, if_neg hother]
      exact hshown other
  · rw [heard_of_not_isWritable hwritable]
    by_cases hother : other = uri
    · subst hother
      rw [if_pos rfl]
      exact hold hwritable
    · rw [if_neg hother]
      exact hshown other

theorem shown_record {ledger : Ledger} {s t : Session} (hshown : ledger.Shown s)
    {uri : Text} {found : Except Fault Entry}
    (hnews : t.published = s.published ++ announcement uri found) :
    (ledger.record uri found).Shown t := by
  cases found with
  | error fault => exact shown_of_append_nil hshown hnews
  | ok entry =>
      exact shows_publish hshown hnews (fun _ _ => rfl)
        fun hnever hwritable => absurd hwritable hnever

theorem shown_act {cfg : Config} {ledger : Ledger} {s t : Session} (hmatches : ledger.Matches s)
    (hshown : ledger.Shown s) (hwritable : s.PublishesWritable) {action : Action}
    (hnews : t.published = s.published ++ cfg.news s action) :
    (ledger.act cfg.host s.moment action).Shown t := by
  cases action with
  | write uri text => exact shown_record hshown hnews
  | forget uri =>
      exact shows_publish hshown hnews (fun _ => Or.inr rfl)
        fun hnever => Or.inl (Session.lastPublished_eq_none hwritable hnever)
  | visit uri =>
      -- the document is at hand exactly when the ledger has an entry for it
      have hlooked := hmatches uri
      simp only [act]
      simp only [Config.news] at hnews
      cases hentry : ledger uri with
      | some entry =>
          rw [hlooked, hentry] at hnews
          exact shown_of_append_nil hshown hnews
      | none =>
          rw [hlooked, hentry] at hnews
          exact shown_record hshown hnews
  | idle => exact shown_of_append_nil hshown hnews

theorem studied_record {host : Host} {ledger : Ledger} (hstudied : ledger.Studied host)
    {uri : Text} {found : Except Fault Entry}
    (hfound : ∀ entry, found = .ok entry →
      ∃ moment, host.Gives moment uri entry.text entry.analysis) :
    (ledger.record uri found).Studied host := by
  cases found with
  | error fault => exact hstudied
  | ok written =>
      intro other entry hentry
      simp only [record] at hentry
      split at hentry
      next hother =>
          obtain rfl := Option.some.inj hentry
          rw [hother]
          exact hfound written rfl
      next => exact hstudied other entry hentry

theorem studied_act {host : Host} {ledger : Ledger} (hstudied : ledger.Studied host)
    (moment : Moment) (action : Action) : (ledger.act host moment action).Studied host := by
  cases action with
  | write uri text => exact studied_record hstudied fun _ h => Host.gives_of_study h
  | forget uri =>
      intro other entry hentry
      simp only [act, strike] at hentry
      split at hentry
      next => cases hentry
      next => exact hstudied other entry hentry
  | visit uri =>
      simp only [act]
      split
      · exact hstudied
      · exact studied_record hstudied fun _ h => Host.gives_of_load h
  | idle => exact hstudied

end Ledger

namespace Config

theorem shown_foldl {cfg : Config} (hpublishes : cfg.publishes = true) {ledger : Ledger}
    {s : Session} (hmatches : ledger.Matches s) (hshown : ledger.Shown s)
    (hwritable : s.PublishesWritable) (messages : List Json.Fields) :
    ((cfg.trace s messages).foldl (Ledger.step cfg) ledger).Shown (messages.foldl cfg.after s) ∧
      (messages.foldl cfg.after s).PublishesWritable := by
  induction messages generalizing s ledger with
  | nil => exact ⟨hshown, hwritable⟩
  | cons message rest ih =>
      have hnews := published_after hpublishes s message
      have hnext : (ledger.step cfg (s.moment, message)).Shown (cfg.after s message) :=
        Ledger.shown_act hmatches hshown hwritable hnews
      exact ih (cfg.matches_after hmatches message) hnext
        (Session.publishesWritable_append hwritable hnews)

theorem studied_foldl (cfg : Config) {ledger : Ledger} (hstudied : ledger.Studied cfg.host)
    (events : List (Moment × Json.Fields)) :
    (events.foldl (Ledger.step cfg) ledger).Studied cfg.host := by
  induction events generalizing ledger with
  | nil => exact hstudied
  | cons event rest ih => exact ih (Ledger.studied_act hstudied event.1 _)

/-- After every run of messages, what was published last for a document at hand is what
the analysis showed that gave its text and tree, and for any other URI nothing is left
to show.  Only diagnostics with a lone surrogate, in the URI or in a message, cannot be
written; they are never published, though the document is kept.  Only a text that is kept
and a document that is forgotten are published: neither a trial run nor an analysis that
fails nor a query about a document at hand. -/
theorem published_agrees_with_documents (host : Host) (readers : Params.Readers)
    (rootOverride : Option Path) (messages : List Json.Fields) :
    let cfg : Config := { host, readers, rootOverride }
    let s := messages.foldl cfg.after cfg.start
    (∀ uri document, s.documents.get? uri = some document →
      ∃ entry moment, cfg.ledger messages uri = some entry ∧
        host.Gives moment uri entry.text entry.analysis ∧
        document = entry.document uri ∧
        (Diagnostic.AreWhole uri entry.analysis.diagnostics →
          s.lastPublished uri = some (entry.analysis.diagnostics.map Diagnostic.toJson)) ∧
        (¬Diagnostic.AreWhole uri entry.analysis.diagnostics →
          (uri, entry.analysis.diagnostics.map Diagnostic.toJson) ∉ s.published)) ∧
    (∀ uri, s.documents.get? uri = none →
      s.lastPublished uri = none ∨ s.lastPublished uri = some []) ∧
    (∀ t message, (cfg.after t message).published =
      t.published ++ cfg.news t (Action.ofMessage readers message)) ∧
    (∀ t uri text, ((cfg.probe uri text).run t).2.published = t.published) ∧
    (∀ t uri text fault, ((cfg.examine uri text).run t).1 = .error fault →
      ((cfg.refresh uri text).run t).2.published = t.published) ∧
    ∀ t message uri document, Action.Asks readers message (.visit uri) →
      t.documents.get? uri = some document → (cfg.after t message).published = t.published := by
  intro cfg s
  have hempty : Ledger.empty.Matches cfg.start := fun _ => rfl
  have hmatches : (cfg.ledger messages).Matches s := cfg.matches_foldl hempty messages
  have hsilent : Ledger.empty.Shown cfg.start := fun _ => Or.inl rfl
  have hunwritten : cfg.start.PublishesWritable := fun _ _ h => nomatch h
  obtain ⟨hshown, hwritable⟩ : (cfg.ledger messages).Shown s ∧ s.PublishesWritable :=
    shown_foldl rfl hempty hsilent hunwritten messages
  have hunstudied : Ledger.empty.Studied host := fun _ _ h => nomatch h
  have hstudied : (cfg.ledger messages).Studied host := cfg.studied_foldl hunstudied _
  have hnews := @published_after cfg rfl
  refine ⟨?_, ?_, hnews, ?_, fun _ _ _ _ hfault => cfg.published_refresh_error hfault, ?_⟩
  · intro uri document hdocument
    rw [hmatches uri] at hdocument
    obtain ⟨entry, hentry, rfl⟩ := Option.map_eq_some_iff.mp hdocument
    obtain ⟨moment, hgives⟩ := hstudied uri entry hentry
    have hlast := hshown uri
    rw [hentry] at hlast
    have hwhole : _ ↔ Diagnostic.AreWhole uri _ :=
      Outgoing.isWritable_diagnostics_iff hgives.nameable
    refine ⟨entry, moment, hentry, hgives, rfl, fun h => hlast (hwhole.mpr h), fun h => ?_⟩
    exact Session.not_mem_published hwritable (mt hwhole.mp h)
  · intro uri hdocument
    rw [hmatches uri] at hdocument
    have hlast := hshown uri
    rw [Option.map_eq_none_iff.mp hdocument] at hlast
    exact hlast
  · intro t uri text
    rw [Session.published, (cfg.quiet_probe uri text t).sent]
    rfl
  · intro t message uri document hvisit hdocument
    rw [hnews t message, Action.ofMessage_of_asks hvisit, news, hdocument]
    exact List.append_nil _

/-- The document that was changed last has an error, which is what was published last for it;
what was published for the one that was closed is nothing more to show. -/
theorem published_agrees_with_documents_of_edits :
    let cfg : Config := { host := smallHost }
    let s := smallRun.foldl cfg.after cfg.start
    let shown : Diagnostic := ⟨⟨⟨0, 0⟩, ⟨0, 1⟩⟩, "unexpected end", .error⟩
    s.lastPublished "file:///a" = some [shown.toJson] ∧
      (s.lastPublished "file:///b" = none ∨ s.lastPublished "file:///b" = some []) := by
  intro cfg s shown
  obtain ⟨hheld, hforgotten, -⟩ :=
    published_agrees_with_documents smallHost Params.lenient none smallRun
  have hmatches : (cfg.ledger smallRun).Matches s :=
    cfg.matches_foldl (show Ledger.empty.Matches cfg.start from fun _ => rfl) smallRun
  have hanalysis : (cfg.ledger smallRun "file:///a").map (fun entry => entry.analysis.diagnostics) =
      some [shown] := by decide +kernel
  have hstruck : (cfg.ledger smallRun "file:///b").isNone = true := by decide +kernel
  obtain ⟨entry, hentry, hdiagnostics⟩ := Option.map_eq_some_iff.mp hanalysis
  have hdocument := hmatches "file:///a"
  rw [hentry] at hdocument
  obtain ⟨found, moment, hfound, -, -, hlast, -⟩ := hheld "file:///a" _ hdocument
  obtain rfl : entry = found := Option.some.inj (hentry.symm.trans hfound)
  have hwhole : Diagnostic.AreWhole "file:///a" entry.analysis.diagnostics := by
    rw [hdiagnostics]
    exact ⟨rfl, fun diagnostic hmem => List.mem_singleton.mp hmem ▸ rfl⟩
  have hclosed := hmatches "file:///b"
  rw [Option.isNone_iff_eq_none.mp hstruck] at hclosed
  exact ⟨(hlast hwhole).trans (by rw [hdiagnostics]; rfl), hforgotten "file:///b" hclosed⟩

/-- Not every document at hand is published: under a URI with a lone surrogate it is kept, though
its diagnostics cannot be written. -/
theorem not_every_document_is_published :
    let cfg : Config := { host := smallHost }
    let uri : Text := "file:///a.nelua#" ++ Text.lone
    let ended := (cfg.handle (openMessage uri "x")).run cfg.start
    ended.1.isOk = true ∧ (ended.2.documents.get? uri).isSome = true ∧
      ended.2.lastPublished uri = none := by
  intro cfg uri ended
  have hkept : ended.1.isOk = true ∧ (ended.2.documents.get? uri).isSome = true ∧
      (ended.2.lastPublished uri).isNone = true := by decide +kernel
  exact ⟨hkept.1, hkept.2.1, Option.isNone_iff_eq_none.mp hkept.2.2⟩

end Config

end EditorBridge
