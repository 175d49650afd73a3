/-
The documents of a session are a map in which the last writer wins.  A ledger holds
for each URI the last text whose analysis ended, with what the analysis gave; it is
built from the messages alone and from what the host answers when each of them
arrives, and after every run of messages the documents at hand are those of the
ledger.
-/
import EditorBridge.Proofs.Messages

namespace EditorBridge

/-- What an analysis gives, by how it ends: the tree that was analyzed and no
diagnostics; no tree when the text does not parse; or what tree there is when its
names cannot be resolved. -/
inductive Host.Gives (host : Host) (moment : Moment) (uri text : Text) : Analysis → Prop where
  | analyzed {path : Path} {parsed tree : Option Tree} (hpath : Uri.toPath uri = .ok path)
      (hparse : host.parse moment.calls text path.text = .ok parsed)
      (hanalyze : host.analyze (moment.calls ++ [.parse text path.text]) parsed
        (moment.root.getD path.parent) = .ok tree) :
      Gives host moment uri text ⟨tree, []⟩
  | unparsed {path : Path} {report : Text} {diagnostics : List Diagnostic}
      (hpath : Uri.toPath uri = .ok path)
      (hparse : host.parse moment.calls text path.text = .error (.parse report))
      (hreport : Diagnostic.ofReport report.points (some text.points) = .ok diagnostics) :
      Gives host moment uri text ⟨none, diagnostics⟩
  | unresolved {path : Path} {parsed tree : Option Tree} {report : Text}
      {diagnostics : List Diagnostic} (hpath : Uri.toPath uri = .ok path)
      (hparse : host.parse moment.calls text path.text = .ok parsed)
      (hanalyze : host.analyze (moment.calls ++ [.parse text path.text]) parsed
        (moment.root.getD path.parent) = .error (.analysis report tree))
      (hreport : Diagnostic.ofReport report.points (some text.points) = .ok diagnostics) :
      Gives host moment uri text ⟨tree, diagnostics⟩

theorem Analysis.exists_of_ofReport {tree : Option Tree} {report text : Text}
    {analysis : Analysis} (h : Analysis.ofReport tree report text = .ok analysis) :
    ∃ diagnostics, Diagnostic.ofReport report.points (some text.points) = .ok diagnostics ∧
      analysis = ⟨tree, diagnostics⟩ := by
  unfold Analysis.ofReport at h
  split at h
  next diagnostics hreport => exact ⟨diagnostics, hreport, (Except.ok.inj h).symm⟩
  next => exact nomatch h

theorem Host.gives_of_examine {host : Host} {moment : Moment} {uri text : Text}
    {analysis : Analysis}
    (h : (host.examine moment.root moment.calls uri text).outcome = .ok analysis) :
    host.Gives moment uri text analysis := by
  unfold Host.examine at h
  split at h
  next => exact nomatch h
  next path hpath =>
      simp only at h
      split at h
      next report hparse =>
          obtain ⟨diagnostics, hreport, rfl⟩ := Analysis.exists_of_ofReport h
          exact .unparsed hpath hparse hreport
      next => exact nomatch h
      next parsed hparse =>
          split at h
          next report tree hanalyze =>
              obtain ⟨diagnostics, hreport, rfl⟩ := Analysis.exists_of_ofReport h
              exact .unresolved hpath hparse hanalyze hreport
          next => exact nomatch h
          next tree hanalyze =>
              obtain rfl := Except.ok.inj h
              exact .analyzed hpath hparse hanalyze

theorem Host.examine_of_gives {host : Host} {moment : Moment} {uri text : Text}
    {analysis : Analysis} (h : host.Gives moment uri text analysis) :
    (host.examine moment.root moment.calls uri text).outcome = .ok analysis := by
  cases h with
  | analyzed hpath hparse hanalyze => simp only [Host.examine, hpath, hparse, hanalyze]
  | unparsed hpath hparse hreport =>
      simp only [Host.examine, hpath, hparse, Analysis.ofReport, hreport]
  | unresolved hpath hparse hanalyze hreport =>
      simp only [Host.examine, hpath, hparse, hanalyze, Analysis.ofReport, hreport]

theorem Host.study_eq_ok_iff (host : Host) (moment : Moment) (uri text : Text)
    (entry : Entry) :
    host.study moment uri text = .ok entry ↔
      entry.text = text ∧ host.Gives moment uri text entry.analysis := by
  rcases entry with ⟨given, analysis⟩
  unfold Host.study
  constructor
  · intro h
    cases hexamine : (host.examine moment.root moment.calls uri text).outcome with
    | error fault =>
        rw [hexamine] at h
        exact nomatch h
    | ok found =>
        rw [hexamine] at h
        obtain ⟨rfl, rfl⟩ := Entry.mk.inj (Except.ok.inj h)
        exact ⟨rfl, Host.gives_of_examine hexamine⟩
  · rintro ⟨rfl, hgives⟩
    rw [Host.examine_of_gives hgives]
    rfl

namespace Config

/-- Whether a message is a request with a method: it has an identifier. -/
def isRequest (method : Text) (message : Json.Fields) : Bool :=
  match Json.Fields.get? message "method" with
  | some (.str name) => name == method && !((Json.Fields.get? message "id").getD .null).isNull
  | _ => false

/-- Whether a message is a notification with a method: it has no identifier. -/
def isNotification (method : Text) (message : Json.Fields) : Bool :=
  match Json.Fields.get? message "method" with
  | some (.str name) => name == method && ((Json.Fields.get? message "id").getD .null).isNull
  | _ => false

section

variable {method : Text} {message : Json.Fields}

theorem isRequest_iff :
    isRequest method message = true ↔
      Json.Fields.get? message "method" = some (.str method) ∧
        ((Json.Fields.get? message "id").getD .null).isNull = false := by
  unfold isRequest
  split
  next name hget => simp [hget]
  next hget => simpa using fun h => absurd h (hget method)

theorem isNotification_iff :
    isNotification method message = true ↔
      Json.Fields.get? message "method" = some (.str method) ∧
        ((Json.Fields.get? message "id").getD .null).isNull = true := by
  unfold isNotification
  split
  next name hget => simp [hget]
  next hget => simpa using fun h => absurd h (hget method)

theorem ofMessage_of_isRequest {readers : Params.Readers}
    (hmessage : isRequest method message = true) :
    Action.ofMessage readers message = Action.ofRequest readers method (paramsOf message) := by
  obtain ⟨hget, hid⟩ := isRequest_iff.mp hmessage
  unfold Action.ofMessage
  rw [hget]
  generalize (Json.Fields.get? message "id").getD .null = id at hid
  cases id with
  | null => cases hid
  | _ => rfl

theorem ofMessage_of_isNotification {readers : Params.Readers}
    (hmessage : isNotification method message = true) :
    Action.ofMessage readers message =
      Action.ofNotification readers method (paramsOf message) := by
  obtain ⟨hget, hid⟩ := isNotification_iff.mp hmessage
  unfold Action.ofMessage
  rw [hget, (Json.isNull_iff _).mp hid]

end

end Config

namespace Action

/-- What a message asks of the documents: three notifications change one, and four
requests look one up, when their parameters can be read. -/
inductive Asks (readers : Params.Readers) (message : Json.Fields) : Action → Prop where
  | opened {params : Json} {uri text : Text}
      (hmessage : Config.isNotification "textDocument/didOpen" message = true)
      (hparams : Carries message params) (hread : readers.opened params = .ok ⟨uri, text⟩) :
      Asks readers message (.write uri text)
  | changed {params : Json} {uri text : Text} {texts : List Text}
      (hmessage : Config.isNotification "textDocument/didChange" message = true)
      (hparams : Carries message params)
      (hread : readers.changed params = .ok ⟨uri, texts ++ [text]⟩) :
      Asks readers message (.write uri text)
  | closed {params : Json} {uri : Text}
      (hmessage : Config.isNotification "textDocument/didClose" message = true)
      (hparams : Carries message params)
      (hread : readers.document Params.closeShape params = .ok uri) :
      Asks readers message (.forget uri)
  | hover {params : Json} {uri : Text} {position : Position}
      (hmessage : Config.isRequest "textDocument/hover" message = true)
      (hparams : Carries message params)
      (hread : readers.place Params.hoverShape params = .ok ⟨uri, position⟩) :
      Asks readers message (.visit uri)
  | definition {params : Json} {uri : Text} {position : Position}
      (hmessage : Config.isRequest "textDocument/definition" message = true)
      (hparams : Carries message params)
      (hread : readers.place Params.definitionShape params = .ok ⟨uri, position⟩) :
      Asks readers message (.visit uri)
  | outline {params : Json} {uri : Text}
      (hmessage : Config.isRequest "textDocument/documentSymbol" message = true)
      (hparams : Carries message params)
      (hread : readers.document Params.symbolShape params = .ok uri) :
      Asks readers message (.visit uri)
  | completion {params : Json} {uri : Text} {position : Position}
      (hmessage : Config.isRequest "textDocument/completion" message = true)
      (hparams : Carries message params)
      (hread : readers.place Params.completionShape params = .ok ⟨uri, position⟩) :
      Asks readers message (.visit uri)

section

variable {readers : Params.Readers} {message : Json.Fields} {method : Text} {params : Json}

/-- A message that asks for something is a notification or a request. -/
theorem isNotification_or_isRequest {action : Action} (haction : action ≠ .idle)
    (hmessage : ofMessage readers message = action) :
    ∃ method,
      Config.isNotification method message = true ∧
          ofNotification readers method (Config.paramsOf message) = action ∨
        Config.isRequest method message = true ∧
          ofRequest readers method (Config.paramsOf message) = action := by
  rw [ofMessage] at hmessage
  split at hmessage
  next method hmethod hid =>
      exact ⟨method, Or.inl ⟨Config.isNotification_iff.mpr ⟨hmethod, by rw [hid]; rfl⟩, hmessage⟩⟩
  next method hmethod hid =>
      refine ⟨method, Or.inr ⟨Config.isRequest_iff.mpr ⟨hmethod, ?_⟩, hmessage⟩⟩
      rw [Bool.eq_false_iff, ne_eq, Json.isNull_iff]
      exact hid
  next => exact absurd hmessage.symm haction

theorem asks_of_isNotification {action : Action} (haction : action ≠ .idle)
    (hmessage : Config.isNotification method message = true)
    (hparams : Carries message params)
    (hasked : ofNotification readers method params = action) : Asks readers message action := by
  unfold ofNotification at hasked
  split at hasked
  next heq =>
      subst heq
      unfold opened at hasked
      split at hasked
      next item hread => exact hasked ▸ .opened hmessage hparams hread
      next => exact absurd hasked.symm haction
  next =>
      split at hasked
      next heq =>
          subst heq
          unfold changed at hasked
          split at hasked
          next change hread =>
              obtain ⟨uri, given⟩ := change
              rcases List.eq_nil_or_concat given with rfl | ⟨texts, text, rfl⟩
              · exact absurd hasked.symm haction
              · rw [List.concat_eq_append, List.getLast?_concat] at hasked
                rw [List.concat_eq_append] at hread
                exact hasked ▸ .changed hmessage hparams hread
          next => exact absurd hasked.symm haction
      next =>
          split at hasked
          next heq =>
              subst heq
              unfold closed at hasked
              split at hasked
              next uri hread => exact hasked ▸ .closed hmessage hparams hread
              next => exact absurd hasked.symm haction
          next => exact absurd hasked.symm haction

/-- A place that is asked about can be read. -/
theorem exists_of_placed {action : Action} (haction : action ≠ .idle) {shape : Params.Shape}
    (hasked : placed readers shape params = action) :
    ∃ place, readers.place shape params = .ok place ∧ action = .visit place.uri := by
  unfold placed at hasked
  split at hasked
  next place hread => exact ⟨place, hread, hasked.symm⟩
  next => exact absurd hasked.symm haction

theorem asks_of_isRequest {action : Action} (haction : action ≠ .idle)
    (hmessage : Config.isRequest method message = true)
    (hparams : Carries message params)
    (hasked : ofRequest readers method params = action) : Asks readers message action := by
  unfold ofRequest at hasked
  split at hasked
  next heq =>
      subst heq
      obtain ⟨place, hread, rfl⟩ := exists_of_placed haction hasked
      exact .hover hmessage hparams hread
  next =>
      split at hasked
      next heq =>
          subst heq
          obtain ⟨place, hread, rfl⟩ := exists_of_placed haction hasked
          exact .definition hmessage hparams hread
      next =>
          split at hasked
          next heq =>
              subst heq
              unfold outlined at hasked
              split at hasked
              next uri hread => exact hasked ▸ .outline hmessage hparams hread
              next => exact absurd hasked.symm haction
          next =>
              split at hasked
              next heq =>
                  subst heq
                  obtain ⟨place, hread, rfl⟩ := exists_of_placed haction hasked
                  exact .completion hmessage hparams hread
              next => exact absurd hasked.symm haction

theorem ofMessage_of_asks {action : Action} (hasks : Asks readers message action) :
    ofMessage readers message = action := by
  -- the parameters that a message carries are those that are read
  cases hasks with
  | opened hmessage hparams hread =>
      rw [carries_iff] at hparams
      simp [Config.ofMessage_of_isNotification hmessage, ofNotification, opened, hparams, hread]
  | changed hmessage hparams hread =>
      rw [carries_iff] at hparams
      simp [Config.ofMessage_of_isNotification hmessage, ofNotification, changed, hparams, hread]
  | closed hmessage hparams hread =>
      rw [carries_iff] at hparams
      simp [Config.ofMessage_of_isNotification hmessage, ofNotification, closed, hparams, hread]
  | hover hmessage hparams hread =>
      rw [carries_iff] at hparams
      simp [Config.ofMessage_of_isRequest hmessage, ofRequest, placed, hparams, hread]
  | definition hmessage hparams hread =>
      rw [carries_iff] at hparams
      simp [Config.ofMessage_of_isRequest hmessage, ofRequest, placed, hparams, hread]
  | outline hmessage hparams hread =>
      rw [carries_iff] at hparams
      simp [Config.ofMessage_of_isRequest hmessage, ofRequest, outlined, hparams, hread]
  | completion hmessage hparams hread =>
      rw [carries_iff] at hparams
      simp [Config.ofMessage_of_isRequest hmessage, ofRequest, placed, hparams, hread]

/-- What a message asks of the documents is what is done for it, and a message that asks
for nothing is idle. -/
theorem asks_iff (readers : Params.Readers) (message : Json.Fields) (action : Action) :
    Asks readers message action ↔ ofMessage readers message = action ∧ action ≠ .idle := by
  constructor
  · intro hasks
    refine ⟨ofMessage_of_asks hasks, ?_⟩
    cases hasks <;> exact fun h => nomatch h
  · rintro ⟨hmessage, haction⟩
    have hparams := (carries_iff message _).mpr rfl
    obtain ⟨method, ⟨hnotification, hasked⟩ | ⟨hrequest, hasked⟩⟩ :=
      isNotification_or_isRequest haction hmessage
    · exact asks_of_isNotification haction hnotification hparams hasked
    · exact asks_of_isRequest haction hrequest hparams hasked

end

end Action

/-- For each URI, the last text that was kept, with what its analysis gave. -/
abbrev Ledger := Text → Option Entry

namespace Ledger

/-- The ledger of no documents. -/
def empty : Ledger := fun _ => none

/-- Write an entry for a URI, unless there is none to write. -/
def record (ledger : Ledger) (uri : Text) : Except Fault Entry → Ledger
  | .ok entry => fun other => if other = uri then some entry else ledger other
  | .error _ => ledger

/-- Strike the entry of a URI. -/
def strike (ledger : Ledger) (uri : Text) : Ledger :=
  fun other => if other = uri then none else ledger other

/-- What an action makes of a ledger, by what the host answers at the moment. -/
def act (host : Host) (moment : Moment) (ledger : Ledger) : Action → Ledger
  | .write uri text => ledger.record uri (host.study moment uri text)
  | .forget uri => ledger.strike uri
  | .visit uri =>
      match ledger uri with
      | some _ => ledger
      | none => ledger.record uri (host.load moment uri)
  | .idle => ledger

/-- What a message makes of a ledger when it arrives at a moment. -/
def step (cfg : Config) (ledger : Ledger) (event : Moment × Json.Fields) : Ledger :=
  ledger.act cfg.host event.1 (Action.ofMessage cfg.readers event.2)

/-- The documents of a session are those of a ledger. -/
def Matches (ledger : Ledger) (s : Session) : Prop :=
  ∀ uri, s.documents.get? uri = (ledger uri).map (Entry.document uri)

theorem matches_stored {ledger : Ledger} {s : Session} (hmatches : ledger.Matches s)
    (cfg : Config) (uri : Text) (found : Except Fault Entry) :
    (ledger.record uri found).Matches (cfg.stored s uri found) := by
  cases found with
  | error fault => exact hmatches
  | ok entry =>
      intro other
      change (s.documents.insert uri (entry.document uri)).get? other = _
      simp only [Table.get?_insert, record]
      by_cases hother : other = uri
      · rw [if_pos hother, if_pos hother, hother]
        rfl
      · rw [if_neg hother, if_neg hother]
        exact hmatches other

theorem matches_perform {ledger : Ledger} {s : Session} (hmatches : ledger.Matches s)
    (cfg : Config) (action : Action) :
    (ledger.act cfg.host s.moment action).Matches (cfg.perform s action) := by
  cases action with
  | write uri text => exact matches_stored hmatches cfg uri _
  | forget uri =>
      intro other
      change (s.documents.erase uri).get? other = _
      simp only [Table.get?_erase, act, strike]
      by_cases hother : other = uri
      · rw [if_pos hother, if_pos hother]
        rfl
      · rw [if_neg hother, if_neg hother]
        exact hmatches other
  | visit uri =>
      have hlooked := hmatches uri
      simp only [act, Config.perform, Config.visited]
      cases hentry : ledger uri with
      | some entry =>
          rw [hentry] at hlooked
          rw [hlooked]
          exact hmatches
      | none =>
          rw [hentry] at hlooked
          rw [hlooked]
          exact matches_stored hmatches cfg uri _
  | idle => exact hmatches

end Ledger

namespace Config

/-- The session behind one more message. -/
def after (cfg : Config) (s : Session) (message : Json.Fields) : Session :=
  ((cfg.handle message).run s).2

/-- The messages of a run, each with the moment at which it arrives. -/
def trace (cfg : Config) : Session → List Json.Fields → List (Moment × Json.Fields)
  | _, [] => []
  | s, message :: rest => (s.moment, message) :: cfg.trace (cfg.after s message) rest

/-- The ledger of a run from the beginning. -/
def ledger (cfg : Config) (messages : List Json.Fields) : Ledger :=
  (cfg.trace cfg.start messages).foldl (Ledger.step cfg) .empty

theorem matches_after (cfg : Config) {ledger : Ledger} {s : Session}
    (hmatches : ledger.Matches s) (message : Json.Fields) :
    (ledger.step cfg (s.moment, message)).Matches (cfg.after s message) := by
  intro uri
  rw [after, (cfg.handle_performs message s).1]
  exact Ledger.matches_perform hmatches cfg _ uri

theorem matches_foldl (cfg : Config) {ledger : Ledger} {s : Session}
    (hmatches : ledger.Matches s) (messages : List Json.Fields) :
    ((cfg.trace s messages).foldl (Ledger.step cfg) ledger).Matches
      (messages.foldl cfg.after s) := by
  induction messages generalizing s ledger with
  | nil => exact hmatches
  | cons message rest ih => exact ih (cfg.matches_after hmatches message)

/-- After every run of messages the documents at hand are those of the ledger: the
text that came last for each URI, with the tree that its analysis gave, each under
its own URI.  What a message asks is decided by its method and its parameters, and what
an analysis gives by how it ends. -/
theorem documents_refine_ledger (cfg : Config) (messages : List Json.Fields) :
    (∀ uri, ((messages.foldl cfg.after cfg.start).documents.get? uri).map
        (fun document => (document.text, document.tree)) =
      (cfg.ledger messages uri).map fun entry => (entry.text, entry.analysis.tree)) ∧
    (∀ uri document, (messages.foldl cfg.after cfg.start).documents.get? uri = some document →
      document.uri = uri) ∧
    (∀ message action, Action.Asks cfg.readers message action ↔
      Action.ofMessage cfg.readers message = action ∧ action ≠ .idle) ∧
    ∀ moment uri text entry, cfg.host.study moment uri text = .ok entry ↔
      entry.text = text ∧ cfg.host.Gives moment uri text entry.analysis := by
  have hempty : Ledger.empty.Matches cfg.start := fun _ => rfl
  have hmatches : (cfg.ledger messages).Matches (messages.foldl cfg.after cfg.start) :=
    cfg.matches_foldl hempty messages
  refine ⟨?_, ?_, Action.asks_iff cfg.readers, cfg.host.study_eq_ok_iff⟩
  · intro uri
    rw [hmatches uri, Option.map_map]
    rfl
  · intro uri document hdocument
    rw [hmatches uri] at hdocument
    obtain ⟨entry, -, rfl⟩ := Option.map_eq_some_iff.mp hdocument
    rfl

/-- A tree of one node, without a place. -/
def smallTree : Tree where
  graph := (Graph.ofTables? #[] #[] #[{ tag := "Block" }] .empty).get (by decide +kernel)
  root := 0

/-- A host that knows one text that does not parse. -/
def smallHost : Host where
  parse := fun _ text _ =>
    if text = "bad" then .error (.parse "a:1:1: error: unexpected end") else .ok (some smallTree)
  analyze := fun _ tree _ => .ok tree
  read := fun _ _ => .ok "read"

/-- The opening of a document. -/
def openMessage (uri text : Text) : Json.Fields :=
  [("method", .str "textDocument/didOpen"), ("params", .obj [("textDocument",
    .obj [("uri", .str uri), ("languageId", .str "nelua"), ("version", .int 1),
      ("text", .str text)])])]

/-- The change of a document to some texts, one after another. -/
def editMessage (uri : Text) (texts : List Text) : Json.Fields :=
  [("method", .str "textDocument/didChange"), ("params", .obj [("textDocument",
    .obj [("uri", .str uri), ("version", .int 2)]),
    ("contentChanges", .arr (texts.map fun text => .obj [("text", .str text)]))])]

/-- The closing of a document. -/
def closeMessage (uri : Text) : Json.Fields :=
  [("method", .str "textDocument/didClose"), ("params", .obj [("textDocument",
    .obj [("uri", .str uri)])])]

/-- A hover at the beginning of a document. -/
def hoverMessage (uri : Text) : Json.Fields :=
  [("id", .int 1), ("method", .str "textDocument/hover"), ("params", .obj [("textDocument",
    .obj [("uri", .str uri)]), ("position", .obj [("line", .int 0), ("character", .int 0)])])]

/-- Two documents are opened, one of them is changed and the other is closed, and a hover looks
a third one up. -/
def smallRun : List Json.Fields :=
  [openMessage "file:///a" "one", openMessage "file:///b" "x",
    editMessage "file:///a" ["two", "bad"], closeMessage "file:///b", hoverMessage "file:///c"]

/-- The document that was changed has the last text, which does not parse; the one that was
closed is gone; the one that was looked up has the text that was read. -/
theorem documents_refine_ledger_of_edits :
    let cfg : Config := { host := smallHost }
    let s := smallRun.foldl cfg.after cfg.start
    let held := fun uri : Text =>
      (s.documents.get? uri).map fun document => (document.text, document.tree.isSome)
    held "file:///a" = some (("bad" : Text), false) ∧ held "file:///b" = none ∧
      held "file:///c" = some (("read" : Text), true) := by
  intro cfg s held
  have hheld : ∀ uri, held uri =
      (cfg.ledger smallRun uri).map fun entry => (entry.text, entry.analysis.tree.isSome) := by
    intro uri
    have hdocument := congrArg (Option.map (Prod.map id Option.isSome))
      ((cfg.documents_refine_ledger smallRun).1 uri)
    rw [Option.map_map, Option.map_map] at hdocument
    exact hdocument
  rw [hheld, hheld, hheld]
  decide +kernel

end Config

end EditorBridge
