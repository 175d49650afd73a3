/-
Documents do not interfere.  What becomes of a document, what is published about it
and how requests about it are answered depends on the messages about it alone, and
on those that name the root; every other message can be left out of a run.
-/
import EditorBridge.Proofs.Confinement
import EditorBridge.Proofs.Publication
import EditorBridge.Proofs.Responses
import EditorBridge.Proofs.SearchRoot

namespace EditorBridge

namespace Params

/-- The URI of the document that parameters name. -/
def namedUri? (params : Json) : Option Text := field? "textDocument" readIdentifier? params

theorem readOne_eq_ok {α : Type} {shape : Shape} {params : Json} {first : Option α} {value : α}
    (h : readOne shape params first = .ok value) : first = some value := by
  cases first with
  | none =>
      simp only [readOne] at h
      cases hjudge : shape.judge params 1 <;> rw [hjudge] at h <;> exact nomatch h
  | some a =>
      simp only [readOne] at h
      cases hjudge : shape.judge params 0 <;> rw [hjudge] at h
      · exact nomatch h
      · exact congrArg some (Except.ok.inj h)

theorem readTwo_eq_ok {α β : Type} {shape : Shape} {params : Json} {first : Option α}
    {second : Option β} {values : α × β} (h : readTwo shape params first second = .ok values) :
    first = some values.1 ∧ second = some values.2 := by
  cases first with
  | none =>
      cases second with
      | none =>
          simp only [readTwo] at h
          cases hjudge : shape.judge params 2 <;> rw [hjudge] at h <;> exact nomatch h
      | some b =>
          simp only [readTwo] at h
          cases hjudge : shape.judge params 1 <;> rw [hjudge] at h <;> exact nomatch h
  | some a =>
      cases second with
      | none =>
          simp only [readTwo] at h
          cases hjudge : shape.judge params 1 <;> rw [hjudge] at h <;> exact nomatch h
      | some b =>
          simp only [readTwo] at h
          cases hjudge : shape.judge params 0 <;> rw [hjudge] at h
          · exact nomatch h
          · obtain rfl := Except.ok.inj h
            exact ⟨rfl, rfl⟩

theorem namedUri?_of_readPlace {shape : Shape} {params : Json} {place : PositionParams}
    (h : readPlace shape params = .ok place) : namedUri? params = some place.uri := by
  unfold readPlace at h
  cases hread : readTwo shape params (field? "textDocument" readIdentifier? params)
      (field? "position" readPosition? params) with
  | error cause => rw [hread] at h; exact nomatch h
  | ok values =>
      rw [hread] at h
      obtain rfl := Except.ok.inj h
      exact (readTwo_eq_ok hread).1

theorem namedUri?_of_readDocument {shape : Shape} {params : Json} {uri : Text}
    (h : readDocument shape params = .ok uri) : namedUri? params = some uri :=
  readOne_eq_ok h

theorem readIdentifier?_of_readItem? {value : Json} {item : OpenParams}
    (h : readItem? value = some item) : readIdentifier? value = some item.uri := by
  simp only [readItem?, Option.bind_eq_bind, Option.bind_eq_some_iff] at h
  obtain ⟨uri, huri, -, -, -, -, text, -, hitem⟩ := h
  obtain rfl := Option.some.inj hitem
  exact huri

theorem readIdentifier?_of_readVersioned? {value : Json} {uri : Text}
    (h : readVersioned? value = some uri) : readIdentifier? value = some uri := by
  simp only [readVersioned?, Option.bind_eq_bind, Option.bind_eq_some_iff] at h
  obtain ⟨named, huri, -, -, hnamed⟩ := h
  obtain rfl := Option.some.inj hnamed
  exact huri

theorem namedUri?_of_readOpen {params : Json} {item : OpenParams}
    (h : readOpen params = .ok item) : namedUri? params = some item.uri := by
  obtain ⟨value, hvalue, hitem⟩ := Option.bind_eq_some_iff.mp (readOne_eq_ok h)
  exact Option.bind_eq_some_iff.mpr ⟨value, hvalue, readIdentifier?_of_readItem? hitem⟩

theorem namedUri?_of_readChangeParams {params : Json} {change : ChangeParams}
    (h : readChangeParams params = .ok change) : namedUri? params = some change.uri := by
  unfold readChangeParams at h
  cases hread : readTwo changeShape params (field? "textDocument" readVersioned? params)
      (field? "contentChanges" readChanges? params) with
  | error cause => rw [hread] at h; exact nomatch h
  | ok values =>
      rw [hread] at h
      obtain rfl := Except.ok.inj h
      obtain ⟨value, hvalue, huri⟩ := Option.bind_eq_some_iff.mp (readTwo_eq_ok hread).1
      exact Option.bind_eq_some_iff.mpr ⟨value, hvalue, readIdentifier?_of_readVersioned? huri⟩

/-- Readers that take a document to be the one whose URI the parameters name. -/
structure Readers.TakeNamed (readers : Readers) : Prop where
  place : ∀ {shape params place}, readers.place shape params = .ok place →
    namedUri? params = some place.uri
  document : ∀ {shape params uri}, readers.document shape params = .ok uri →
    namedUri? params = some uri
  opened : ∀ {params item}, readers.opened params = .ok item → namedUri? params = some item.uri
  changed : ∀ {params change}, readers.changed params = .ok change →
    namedUri? params = some change.uri

theorem takeNamed_lenient : lenient.TakeNamed where
  place h := namedUri?_of_readPlace (mapError_eq_ok_iff.mp h)
  document h := namedUri?_of_readDocument (mapError_eq_ok_iff.mp h)
  opened h := namedUri?_of_readOpen (mapError_eq_ok_iff.mp h)
  changed h := namedUri?_of_readChangeParams (mapError_eq_ok_iff.mp h)

end Params

namespace Config

/-- The methods of messages about one document. -/
def documentMethods : List Text :=
  ["textDocument/didOpen", "textDocument/didChange", "textDocument/didClose",
    "textDocument/hover", "textDocument/definition", "textDocument/documentSymbol",
    "textDocument/completion"]

/-- Whether a message is about a document: its method is that of such a message, and its
parameters name the URI. -/
def isAbout (uri : Text) (message : Json.Fields) : Bool :=
  match Json.Fields.get? message "method" with
  | some (.str method) =>
      documentMethods.contains method && Params.namedUri? (paramsOf message) == some uri
  | _ => false

/-- Whether a message bears on a document. -/
def bearsOn (uri : Text) (message : Json.Fields) : Bool := isStart message || isAbout uri message

/-- Whether a message is a request about a document. -/
def asksAbout (uri : Text) (message : Json.Fields) : Bool :=
  isAbout uri message && !((Json.Fields.get? message "id").getD .null).isNull

end Config

namespace Action

/-- A message whose action is on a document is about it. -/
theorem isAbout_of_asks {readers : Params.Readers} (hreaders : readers.TakeNamed)
    {message : Json.Fields} {action : Action} (hasks : Asks readers message action) {uri : Text}
    (huri : action.uri? = some uri) : Config.isAbout uri message = true := by
  have habout : ∀ {method params named}, Json.Fields.get? message "method" = some (.str method) →
      method ∈ Config.documentMethods → Carries message params →
      Params.namedUri? params = some named → action.uri? = some named →
      Config.isAbout uri message = true := by
    intro method params named hget hmethod hparams hnamed haction
    obtain rfl : named = uri := Option.some.inj (haction.symm.trans huri)
    simp [Config.isAbout, hget, hmethod, (carries_iff message params).mp hparams, hnamed]
  cases hasks with
  | opened hmessage hparams hread =>
      exact habout (Config.isNotification_iff.mp hmessage).1 (by simp [Config.documentMethods])
        hparams (hreaders.opened hread) rfl
  | changed hmessage hparams hread =>
      exact habout (Config.isNotification_iff.mp hmessage).1 (by simp [Config.documentMethods])
        hparams (hreaders.changed hread) rfl
  | closed hmessage hparams hread =>
      exact habout (Config.isNotification_iff.mp hmessage).1 (by simp [Config.documentMethods])
        hparams (hreaders.document hread) rfl
  | hover hmessage hparams hread =>
      exact habout (Config.isRequest_iff.mp hmessage).1 (by simp [Config.documentMethods])
        hparams (hreaders.place hread) rfl
  | definition hmessage hparams hread =>
      exact habout (Config.isRequest_iff.mp hmessage).1 (by simp [Config.documentMethods])
        hparams (hreaders.place hread) rfl
  | outline hmessage hparams hread =>
      exact habout (Config.isRequest_iff.mp hmessage).1 (by simp [Config.documentMethods])
        hparams (hreaders.document hread) rfl
  | completion hmessage hparams hread =>
      exact habout (Config.isRequest_iff.mp hmessage).1 (by simp [Config.documentMethods])
        hparams (hreaders.place hread) rfl

theorem isAbout_of_uri? {readers : Params.Readers} (hreaders : readers.TakeNamed)
    {message : Json.Fields} {uri : Text} (h : (ofMessage readers message).uri? = some uri) :
    Config.isAbout uri message = true := by
  refine isAbout_of_asks hreaders ((asks_iff readers message _).mpr ⟨rfl, fun hidle => ?_⟩) h
  rw [hidle] at h
  exact nomatch h

end Action

namespace Config

open Serving

theorem confined_ofParams_bind {α β : Type} {uri : Text} {shape : Params.Shape}
    {read : Except Text α} {next : α → Serving β}
    (hnext : ∀ value, read = .ok value → (next value).Confined uri) :
    (ofParams shape read >>= next).Confined uri := by
  cases read with
  | error reason => exact confined_throw _
  | ok value => exact hnext value rfl

section

variable {cfg : Config} (hsteady : cfg.host.IsSteady) (hreaders : cfg.readers.TakeNamed)
  {uri : Text} {params : Json}

include hreaders in
/-- A query about a place is confined when the queries about each place of the document
are. -/
theorem confined_placed {α β : Type} (hnamed : Params.namedUri? params = some uri)
    {shape : Params.Shape} {query : Params.PositionParams → Serving α}
    (hquery : ∀ position, (query ⟨uri, position⟩).Confined uri) (present : α → β) :
    (ofParams shape (cfg.readers.place shape params) >>= fun place =>
      query place >>= fun found => pure (present found)).Confined uri := by
  apply confined_ofParams_bind
  rintro ⟨named, position⟩ hread
  obtain rfl : uri = named := Option.some.inj (hnamed.symm.trans (hreaders.place hread))
  exact (hquery position).bind fun _ => confined_pure _

include hsteady hreaders

/-- The work on a request is confined to the document that its parameters name. -/
theorem confined_answer {request : Request}
    (hnamed : request = .start ∨ Params.namedUri? params = some uri) :
    (cfg.answer request params).Confined uri := by
  cases request with
  | start => exact (confined_takeRoot params).bind fun _ => confined_pure introduction
  | shutdown =>
      apply Confined.bind
      · exact confined_modify (fun _ _ hagree => ⟨hagree.document, hagree.root⟩) fun _ => rfl
      · exact fun _ => confined_pure Json.null
  | hover =>
      exact confined_placed hreaders (hnamed.resolve_left nofun) (confined_hover hsteady) _
  | definition =>
      exact confined_placed hreaders (hnamed.resolve_left nofun) (confined_definition hsteady) _
  | outline =>
      apply confined_ofParams_bind
      intro named hread
      have hsame := (hnamed.resolve_left nofun).symm.trans (hreaders.document hread)
      obtain rfl := Option.some.inj hsame
      exact (confined_outline hsteady).bind fun _ => confined_pure _
  | completion =>
      exact confined_placed hreaders (hnamed.resolve_left nofun) (confined_completion hsteady) _

theorem confined_take (hnamed : Params.namedUri? params = some uri)
    (notification : Notification) : (cfg.take notification params).Confined uri := by
  cases notification with
  | started => exact confined_pure ()
  | exit =>
      exact confined_modify (fun _ _ hagree => ⟨hagree.document, hagree.root⟩) fun _ => rfl
  | opened =>
      apply confined_ofParams_bind
      rintro ⟨named, text⟩ hread
      obtain rfl : uri = named :=
        Option.some.inj (hnamed.symm.trans (hreaders.opened hread))
      apply (confined_refresh hsteady text).bind
      intro document
      split
      · exact (confined_note _ _).bind fun _ => confined_send _
      · exact confined_pure ()
  | changed =>
      apply confined_ofParams_bind
      rintro ⟨named, texts⟩ hread
      obtain rfl : uri = named :=
        Option.some.inj (hnamed.symm.trans (hreaders.changed hread))
      split
      · exact confined_pure ()
      · exact (confined_refresh hsteady _).bind fun _ => confined_pure ()
  | closed =>
      apply confined_ofParams_bind
      intro named hread
      obtain rfl : uri = named :=
        Option.some.inj (hnamed.symm.trans (hreaders.document hread))
      exact confined_close.bind fun _ => confined_publish []

theorem confined_serveRequest (id : Json) {method : Text}
    (hnamed : method = "initialize" ∨ Params.namedUri? params = some uri) :
    (cfg.serveRequest id (.str method) params).Confined uri := by
  apply (confined_noteShowing _ _ _).bind
  intro _
  apply confined_lift_bind
  intro found hfound
  cases found with
  | none => exact confined_send _
  | some request =>
      have hrequest : request = .start ∨ Params.namedUri? params = some uri := by
        apply hnamed.imp_left
        rintro rfl
        exact (Option.some.inj (Except.ok.inj hfound)).symm
      apply (confined_answer hsteady hreaders hrequest).attempt.bind
      intro outcome
      split
      · exact confined_send _
      · exact confined_send _
      · split
        · exact (confined_note _ _).bind fun _ => confined_send _
        · exact confined_throw _

theorem confined_serveNotification {method : Text}
    (hnamed : method = "initialize" ∨ Params.namedUri? params = some uri) :
    (cfg.serveNotification (.str method) params).Confined uri := by
  apply (confined_noteShowing _ _ _).bind
  intro _
  apply confined_lift_bind
  intro found hfound
  cases found with
  | none => exact confined_noteShowing _ _ _
  | some notification =>
      have hparams : Params.namedUri? params = some uri := by
        apply hnamed.resolve_left
        rintro rfl
        exact nomatch hfound
      apply (confined_take hsteady hreaders hparams notification).attempt.bind
      intro outcome
      split
      · exact confined_pure ()
      · split
        · exact (confined_note _ _).bind fun _ => confined_send _
        · exact confined_throw _

/-- Serving a message that bears on a document is confined to this document. -/
theorem confined_handle {message : Json.Fields} (hbears : bearsOn uri message = true) :
    (cfg.handle message).Confined uri := by
  have hmethod : ∃ method, Json.Fields.get? message "method" = some (.str method) ∧
      (method = "initialize" ∨ Params.namedUri? (paramsOf message) = some uri) := by
    unfold bearsOn isStart isAbout at hbears
    cases hget : Json.Fields.get? message "method" with
    | none => simp [hget] at hbears
    | some method =>
        cases method with
        | str name =>
            simp only [hget, Bool.or_eq_true, beq_iff_eq, Bool.and_eq_true] at hbears
            exact ⟨name, rfl, hbears.imp_right And.right⟩
        | _ => simp [hget] at hbears
  obtain ⟨method, hget, hnamed⟩ := hmethod
  rw [cfg.handle_of_method hget]
  split
  · exact confined_serveNotification hsteady hreaders hnamed
  · exact confined_serveRequest hsteady hreaders _ hnamed

end

/-- What is sent while a message is served. -/
def frames (cfg : Config) (s : Session) (message : Json.Fields) : List Outgoing :=
  (cfg.after s message).sent.drop s.sent.length

/-- How the service of each message of a run ends. -/
def endings (cfg : Config) : Session → List Json.Fields → List (Except Fault Unit)
  | _, [] => []
  | s, message :: rest => ((cfg.handle message).run s).1 :: cfg.endings (cfg.after s message) rest

/-- The responses to the requests about a document, in the order of a run. -/
def replies (cfg : Config) (uri : Text) : Session → List Json.Fields → List Outgoing
  | _, [] => []
  | s, message :: rest =>
      (if asksAbout uri message then
        (cfg.frames s message).filter fun frame => (frame.field? "id").isSome
      else []) ++ cfg.replies uri (cfg.after s message) rest

end Config

/-- What was published about a document, in order. -/
def Session.publishedAbout (s : Session) (uri : Text) : List (Text × List Json) :=
  s.published.filter fun publication => publication.1 == uri

namespace Session

/-- Two sessions in which a document is the same and the same was published about it. -/
structure Same (uri : Text) (s t : Session) : Prop where
  agree : s.AgreeOn uri t
  published : t.publishedAbout uri = s.publishedAbout uri

theorem Parallel.publishedAbout {uri : Text} {s t s' t' : Session}
    (hparallel : Parallel uri s t s' t')
    (hpublished : t.publishedAbout uri = s.publishedAbout uri) :
    t'.publishedAbout uri = s'.publishedAbout uri := by
  obtain ⟨frames, hs, ht⟩ := hparallel.frames
  simp only [Session.publishedAbout, Session.published] at hpublished ⊢
  rw [hs, ht, List.filterMap_append, List.filterMap_append, List.filter_append,
    List.filter_append, hpublished]

end Session

namespace Config

variable {cfg : Config} {uri : Text} {s t : Session}

theorem get?_stored_of_ne {other : Text} (hother : uri ≠ other) (found : Except Fault Entry) :
    (cfg.stored s other found).documents.get? uri = s.documents.get? uri := by
  cases found with
  | error fault => rfl
  | ok entry =>
      change (s.documents.insert other _).get? uri = _
      rw [Table.get?_insert, if_neg hother]

/-- An action on another document leaves a document as it is. -/
theorem get?_perform {action : Action} (haction : action.uri? ≠ some uri) :
    (cfg.perform s action).documents.get? uri = s.documents.get? uri := by
  have hne : ∀ other, action.uri? = some other → uri ≠ other := by
    rintro other hother rfl
    exact haction hother
  cases action with
  | write other text => exact get?_stored_of_ne (hne other rfl) _
  | forget other =>
      change (s.documents.erase other).get? uri = _
      rw [Table.get?_erase, if_neg (hne other rfl)]
  | visit other =>
      simp only [perform, visited]
      split
      · rfl
      · exact get?_stored_of_ne (hne other rfl) _
  | idle => rfl

theorem filter_heard {other : Text} (hother : uri ≠ other) (list : List Diagnostic) :
    (heard other list).filter (fun publication => publication.1 == uri) = [] := by
  simp [heard, beq_eq_false_iff_ne.mpr hother.symm]

theorem filter_announcement {other : Text} (hother : uri ≠ other) (found : Except Fault Entry) :
    (announcement other found).filter (fun publication => publication.1 == uri) = [] := by
  cases found with
  | error fault => rfl
  | ok entry => exact filter_heard hother _

/-- An action on another document publishes nothing about a document. -/
theorem filter_news {action : Action} (haction : action.uri? ≠ some uri) :
    (cfg.news s action).filter (fun publication => publication.1 == uri) = [] := by
  have hne : ∀ other, action.uri? = some other → uri ≠ other := by
    rintro other hother rfl
    exact haction hother
  cases action with
  | write other text => exact filter_announcement (hne other rfl) _
  | forget other => exact filter_heard (hne other rfl) []
  | visit other =>
      simp only [news]
      split
      · rfl
      · exact filter_announcement (hne other rfl) _
  | idle => rfl

/-- A message that does not bear on a document leaves it the same. -/
theorem same_after_other (hpublishes : cfg.publishes = true)
    (hreaders : cfg.readers.TakeNamed) {message : Json.Fields}
    (hother : bearsOn uri message = false) : s.Same uri (cfg.after s message) := by
  obtain ⟨hstart, habout⟩ := Bool.or_eq_false_iff.mp hother
  have haction : (Action.ofMessage cfg.readers message).uri? ≠ some uri := by
    intro huri
    rw [Action.isAbout_of_uri? hreaders huri] at habout
    exact nomatch habout
  constructor
  · constructor
    · rw [after, (cfg.handle_performs message s).1]
      exact get?_perform haction
    · exact cfg.root_after s hstart
  · rw [Session.publishedAbout, published_after hpublishes, List.filter_append,
      filter_news haction, List.append_nil]
    rfl

theorem frames_of_sent {message : Json.Fields} {sent : List Outgoing}
    (hsent : (cfg.after s message).sent = s.sent ++ sent) : cfg.frames s message = sent := by
  rw [frames, hsent, List.drop_left]

/-- Where a document is the same, a message that bears on it is served alike. -/
theorem same_after_bearing (hsteady : cfg.host.IsSteady)
    (hreaders : cfg.readers.TakeNamed) (hsame : s.Same uri t)
    {message : Json.Fields} (hbears : bearsOn uri message = true) :
    ((cfg.handle message).run t).1 = ((cfg.handle message).run s).1 ∧
      cfg.frames t message = cfg.frames s message ∧
      (cfg.after s message).Same uri (cfg.after t message) := by
  obtain ⟨houtcome, hparallel⟩ := confined_handle hsteady hreaders hbears hsame.agree
  obtain ⟨sent, hs, ht⟩ := hparallel.frames
  refine ⟨houtcome, ?_, hparallel.agree, hparallel.publishedAbout hsame.published⟩
  rw [frames_of_sent hs, frames_of_sent ht]

theorem asksAbout_eq_false (message : Json.Fields) (hother : bearsOn uri message = false) :
    asksAbout uri message = false := by
  rw [asksAbout, (Bool.or_eq_false_iff.mp hother).2, Bool.false_and]

/-- The invariant of two runs, of which one is left with the messages that bear on a
document.  The induction goes over the messages of the longer one. -/
theorem same_foldl (hpublishes : cfg.publishes = true) (hsteady : cfg.host.IsSteady)
    (hreaders : cfg.readers.TakeNamed) (hsame : s.Same uri t) (messages : List Json.Fields) :
    let alone := messages.filter (bearsOn uri)
    (messages.foldl cfg.after s).Same uri (alone.foldl cfg.after t) ∧
      cfg.replies uri t alone = cfg.replies uri s messages ∧
      cfg.endings t alone ⊆ cfg.endings s messages := by
  induction messages generalizing s t with
  | nil => exact ⟨hsame, rfl, List.Subset.refl _⟩
  | cons message rest ih =>
      cases hbears : bearsOn uri message with
      | true =>
          obtain ⟨houtcome, hframes, hnext⟩ := same_after_bearing hsteady hreaders hsame hbears
          obtain ⟨hrest, hreplies, hendings⟩ := ih hnext
          simp only [List.filter_cons_of_pos hbears, replies, endings, houtcome, hframes, hreplies]
          exact ⟨hrest, trivial, List.cons_subset_cons _ hendings⟩
      | false =>
          have hskip : s.Same uri (cfg.after s message) :=
            same_after_other hpublishes hreaders hbears
          have hnext : (cfg.after s message).Same uri t :=
            ⟨hskip.agree.symm.trans hsame.agree, hsame.published.trans hskip.published.symm⟩
          obtain ⟨hrest, hreplies, hendings⟩ := ih hnext
          have hdrop : ¬bearsOn uri message = true := by simp [hbears]
          simp only [List.filter_cons_of_neg hdrop, replies, asksAbout_eq_false _ hbears]
          exact ⟨hrest, hreplies, fun ending hmem => List.mem_cons_of_mem _ (hendings hmem)⟩

/-- A run of messages and the run of those among them that bear on a document end with the
same document, publish the same about it and answer the requests about it alike; and
when no message of the first run fails, none of the second one does. -/
theorem documents_do_not_interfere {host : Host} (hsteady : host.IsSteady)
    {readers : Params.Readers} (hreaders : readers.TakeNamed) (rootOverride : Option Path)
    (uri : Text) (s : Session) (messages : List Json.Fields) :
    let cfg : Config := { host, readers, rootOverride }
    let alone := messages.filter (bearsOn uri)
    (alone.foldl cfg.after s).documents.get? uri =
        (messages.foldl cfg.after s).documents.get? uri ∧
      (alone.foldl cfg.after s).publishedAbout uri =
        (messages.foldl cfg.after s).publishedAbout uri ∧
      cfg.replies uri s alone = cfg.replies uri s messages ∧
      ((∀ ending ∈ cfg.endings s messages, ending = .ok ()) →
        ∀ ending ∈ cfg.endings s alone, ending = .ok ()) := by
  intro cfg alone
  have hsame : s.Same uri s := ⟨.refl uri s, rfl⟩
  obtain ⟨hrun, hreplies, hendings⟩ := @same_foldl cfg uri s s rfl hsteady hreaders hsame messages
  exact ⟨hrun.agree.document, hrun.published, hreplies,
    fun hall ending hmem => hall ending (hendings hmem)⟩

/-- A document that does not parse is hovered over, and in between another one is opened
and asked for without being at hand. -/
theorem two_documents_do_not_interfere :
    let host : Host := {
      parse := fun _ text file =>
        if text = "local" then .ok none else .error (.parse (file ++ ":1:1: error: " ++ text))
      analyze := fun _ tree _ => .ok tree
      read := fun _ uri => .error (.noFile uri) }
    let cfg : Config := { host }
    let opened : Text → Text → Json.Fields := fun uri text =>
      [("method", .str "textDocument/didOpen"), ("params", .obj [("textDocument",
        .obj [("uri", .str uri), ("languageId", .str "nelua"), ("version", .int 1),
          ("text", .str text)])])]
    let outline : Text → Json.Fields := fun uri =>
      [("id", .int 7), ("method", .str "textDocument/documentSymbol"),
        ("params", .obj [("textDocument", .obj [("uri", .str uri)])])]
    let messages := [opened "file:///a" "end", opened "file:///b" "local", outline "file:///c",
      outline "file:///a"]
    let alone := [opened "file:///a" "end", outline "file:///a"]
    host.IsSteady ∧ cfg.readers.TakeNamed ∧ messages.filter (bearsOn "file:///a") = alone ∧
      (alone.foldl cfg.after cfg.start).documents.get? "file:///a" =
        (messages.foldl cfg.after cfg.start).documents.get? "file:///a" ∧
      (alone.foldl cfg.after cfg.start).publishedAbout "file:///a" =
        (messages.foldl cfg.after cfg.start).publishedAbout "file:///a" ∧
      cfg.replies "file:///a" cfg.start alone = cfg.replies "file:///a" cfg.start messages ∧
      ((∀ ending ∈ cfg.endings cfg.start messages, ending = .ok ()) →
        ∀ ending ∈ cfg.endings cfg.start alone, ending = .ok ()) := by
  intro host cfg opened outline messages alone
  have hsteady : host.IsSteady :=
    ⟨⟨fun _ _ _ _ => rfl, fun _ _ _ _ _ _ _ => rfl⟩, fun _ _ _ => rfl⟩
  have hreaders : cfg.readers.TakeNamed := Params.takeNamed_lenient
  have halone : messages.filter (bearsOn "file:///a") = alone := rfl
  have hrun := documents_do_not_interfere hsteady hreaders none "file:///a" cfg.start messages
  rw [halone] at hrun
  exact ⟨hsteady, hreaders, halone, hrun⟩

end Config

end EditorBridge
