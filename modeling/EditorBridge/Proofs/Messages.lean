/-
What a message does to the documents of a session and to what the editor is told
about them.  Each message asks for one action: to keep a text, to forget a document,
to look one up, or nothing.  Serving the message performs this action, and what else
it sends is about no document.
-/
import EditorBridge.Proofs.Documents

namespace EditorBridge

theorem Json.isNull_iff (value : Json) : value.isNull = true ↔ value = .null := by
  cases value with
  | null => exact ⟨fun _ => rfl, fun _ => rfl⟩
  | _ => exact ⟨fun h => (nomatch h), fun h => nomatch h⟩

/-- A value that says nothing. -/
inductive Json.IsBlank : Json → Prop where
  | null : IsBlank .null
  | bool : IsBlank (.bool false)
  | int : IsBlank (.int 0)
  | float {x : Number.Binary64} (hzero : x.isZero = true) : IsBlank (.float x)
  | str : IsBlank (.str ⟨[]⟩)
  | arr : IsBlank (.arr [])
  | obj : IsBlank (.obj [])

theorem Json.isBlank_iff (value : Json) : value.IsBlank ↔ value.isTruthy = false := by
  constructor
  · intro hblank
    cases hblank with
    | float hzero => rw [isTruthy, hzero, Bool.not_true]
    | _ => rfl
  · intro htruthy
    cases value with
    | null => exact .null
    | bool b =>
        obtain rfl : b = false := htruthy
        exact .bool
    | int n =>
        obtain rfl : n = 0 := by simpa [isTruthy] using htruthy
        exact .int
    | float x => exact .float (by simpa [isTruthy] using htruthy)
    | str s =>
        obtain ⟨points⟩ := s
        cases points with
        | nil => exact .str
        | cons c rest => exact nomatch htruthy
    | arr items =>
        cases items with
        | nil => exact .arr
        | cons item rest => exact nomatch htruthy
    | obj fields =>
        cases fields with
        | nil => exact .obj
        | cons field rest => exact nomatch htruthy

/-- What a message asks of the documents. -/
inductive Action where
  | write (uri text : Text)
  | forget (uri : Text)
  | visit (uri : Text)
  | idle
deriving DecidableEq, Repr

namespace Action

/-- The URI of the document that an action changes or looks up. -/
def uri? : Action → Option Text
  | .write uri _ | .forget uri | .visit uri => some uri
  | .idle => none

/-- The parameters that a message carries.  Where they are missing, or say nothing, they
are an empty object. -/
inductive Carries (message : Json.Fields) : Json → Prop where
  | given {params : Json} (hparams : Json.Fields.get? message "params" = some params)
      (hblank : ¬params.IsBlank) : Carries message params
  | blank {value : Json} (hparams : Json.Fields.get? message "params" = some value)
      (hblank : value.IsBlank) : Carries message (.obj [])
  | missing (hparams : Json.Fields.get? message "params" = none) : Carries message (.obj [])

theorem carries_iff (message : Json.Fields) (params : Json) :
    Carries message params ↔ Config.paramsOf message = params := by
  unfold Config.paramsOf
  constructor
  · intro hcarries
    cases hcarries with
    | given hparams hblank =>
        rw [Json.isBlank_iff, Bool.not_eq_false] at hblank
        simp only [hparams, Option.getD_some, hblank, if_true]
    | blank hparams hblank =>
        rw [Json.isBlank_iff] at hblank
        simp only [hparams, Option.getD_some, hblank, Bool.false_eq_true, if_false]
    | missing hparams => simp only [hparams, Option.getD_none, Json.isTruthy, Bool.false_eq_true,
        if_false]
  · intro hparams
    cases hvalue : Json.Fields.get? message "params" with
    | none =>
        simp only [hvalue, Option.getD_none, Json.isTruthy, Bool.false_eq_true, if_false] at hparams
        exact hparams ▸ .missing hvalue
    | some value =>
        simp only [hvalue, Option.getD_some] at hparams
        by_cases hblank : value.IsBlank
        · rw [(Json.isBlank_iff value).mp hblank, if_neg Bool.false_ne_true] at hparams
          exact hparams ▸ .blank hvalue hblank
        · have htruthy := hblank
          rw [Json.isBlank_iff, Bool.not_eq_false] at htruthy
          rw [htruthy, if_pos rfl] at hparams
          exact hparams ▸ .given hvalue hblank

section

variable (readers : Params.Readers)

/-- A document is opened with its text. -/
def opened (params : Json) : Action :=
  match readers.opened params with
  | .ok item => .write item.uri item.text
  | .error _ => .idle

/-- A document is changed; the last of the changes has its whole text. -/
def changed (params : Json) : Action :=
  match readers.changed params with
  | .ok change => (change.texts.getLast?).elim .idle (.write change.uri)
  | .error _ => .idle

/-- A document is closed. -/
def closed (params : Json) : Action :=
  match readers.document Params.closeShape params with
  | .ok uri => .forget uri
  | .error _ => .idle

/-- A place of a document is asked about. -/
def placed (shape : Params.Shape) (params : Json) : Action :=
  match readers.place shape params with
  | .ok place => .visit place.uri
  | .error _ => .idle

/-- The outline of a document is asked for. -/
def outlined (params : Json) : Action :=
  match readers.document Params.symbolShape params with
  | .ok uri => .visit uri
  | .error _ => .idle

/-- What a known notification asks of the documents. -/
def take (notification : Notification) (params : Json) : Action :=
  match notification with
  | .opened => opened readers params
  | .changed => changed readers params
  | .closed => closed readers params
  | .started | .exit => .idle

/-- What a known request asks of the documents. -/
def answer (request : Request) (params : Json) : Action :=
  match request with
  | .hover => placed readers Params.hoverShape params
  | .definition => placed readers Params.definitionShape params
  | .outline => outlined readers params
  | .completion => placed readers Params.completionShape params
  | .start | .shutdown => .idle

/-- What a notification asks of the documents. -/
def ofNotification (method : Text) (params : Json) : Action :=
  if method = "textDocument/didOpen" then opened readers params
  else if method = "textDocument/didChange" then changed readers params
  else if method = "textDocument/didClose" then closed readers params
  else .idle

/-- What a request asks of the documents. -/
def ofRequest (method : Text) (params : Json) : Action :=
  if method = "textDocument/hover" then placed readers Params.hoverShape params
  else if method = "textDocument/definition" then placed readers Params.definitionShape params
  else if method = "textDocument/documentSymbol" then outlined readers params
  else if method = "textDocument/completion" then placed readers Params.completionShape params
  else .idle

variable {readers}

theorem ofNotification_of_mem {method : Text} {notification : Notification}
    (hmethod : (method, notification) ∈ Notification.methods) (params : Json) :
    ofNotification readers method params = take readers notification params := by
  simp only [Notification.methods, List.mem_cons, Prod.mk.injEq, List.not_mem_nil, or_false]
    at hmethod
  rcases hmethod with ⟨rfl, rfl⟩ | ⟨rfl, rfl⟩ | ⟨rfl, rfl⟩ | ⟨rfl, rfl⟩ | ⟨rfl, rfl⟩
  all_goals simp [ofNotification, take]

theorem ofRequest_of_mem {method : Text} {request : Request}
    (hmethod : (method, request) ∈ Request.methods) (params : Json) :
    ofRequest readers method params = answer readers request params := by
  simp only [Request.methods, List.mem_cons, Prod.mk.injEq, List.not_mem_nil, or_false] at hmethod
  rcases hmethod with ⟨rfl, rfl⟩ | ⟨rfl, rfl⟩ | ⟨rfl, rfl⟩ | ⟨rfl, rfl⟩ | ⟨rfl, rfl⟩ | ⟨rfl, rfl⟩
  all_goals simp [ofRequest, answer]

theorem ofNotification_eq_idle {method : Text}
    (hmethod : Notification.methods.lookup method = none) (params : Json) :
    ofNotification readers method params = .idle := by
  simp only [List.lookup_eq_none_iff, Notification.methods, List.forall_mem_cons, bne_iff_ne]
    at hmethod
  obtain ⟨-, -, hopened, hchanged, hclosed, -⟩ := hmethod
  rw [ofNotification, if_neg hopened, if_neg hchanged, if_neg hclosed]

theorem ofRequest_eq_idle {method : Text}
    (hmethod : Request.methods.lookup method = none) (params : Json) :
    ofRequest readers method params = .idle := by
  simp only [List.lookup_eq_none_iff, Request.methods, List.forall_mem_cons, bne_iff_ne] at hmethod
  obtain ⟨-, -, hhover, hdefinition, houtline, hcompletion, -⟩ := hmethod
  rw [ofRequest, if_neg hhover, if_neg hdefinition, if_neg houtline, if_neg hcompletion]

variable (readers)

/-- What a message asks of the documents.  A message without an identifier is a
notification. -/
def ofMessage (message : Json.Fields) : Action :=
  match Json.Fields.get? message "method", (Json.Fields.get? message "id").getD .null with
  | some (.str method), .null => ofNotification readers method (Config.paramsOf message)
  | some (.str method), _ => ofRequest readers method (Config.paramsOf message)
  | _, _ => .idle

end

end Action

/-- Whether a message to the editor is about no document: a reply, or an error for
the user to read. -/
def Outgoing.isAside : Outgoing → Bool
  | .response _ _ | .failure _ _ _ _ | .alert _ => true
  | .notification _ _ | .diagnostics _ _ => false

/-- Whether a message to the editor is an error for the user to read. -/
def Outgoing.isAlert : Outgoing → Bool
  | .alert _ => true
  | _ => false

theorem Outgoing.isAside_of_isAlert {message : Outgoing} (halert : message.isAlert = true) :
    message.isAside = true := by
  cases message with
  | alert text => rfl
  | _ => exact nomatch halert

/-- Whether a request asks about a document. -/
def Request.isQuery : Request → Bool
  | .start | .shutdown => false
  | .hover | .definition | .outline | .completion => true

namespace Config

open Serving

/-- The session in which an action is done. -/
def perform (cfg : Config) (s : Session) : Action → Session
  | .write uri text => cfg.stored s uri (cfg.host.study s.moment uri text)
  | .forget uri => cfg.dropped s uri
  | .visit uri => cfg.visited s uri
  | .idle => s

/-- What the log says makes no difference to an action. -/
theorem perform_logged (cfg : Config) (s : Session) (entries : List Log.Entry)
    (action : Action) :
    (cfg.perform s action).Alike (cfg.perform (s.logged entries) action) := by
  have hstored : ∀ uri found,
      (cfg.stored s uri found).Alike (cfg.stored (s.logged entries) uri found) := by
    intro uri found
    cases found with
    | error fault => exact ⟨rfl, rfl, rfl, rfl, rfl⟩
    | ok entry => exact ⟨rfl, rfl, rfl, rfl, rfl⟩
  cases action with
  | write uri text => exact hstored uri _
  | forget uri => exact ⟨rfl, rfl, rfl, rfl, rfl⟩
  | visit uri =>
      have hsame : (s.logged entries).documents = s.documents := rfl
      simp only [perform, visited, hsame]
      split
      · exact ⟨rfl, rfl, rfl, rfl, rfl⟩
      · exact hstored uri _
  | idle => exact ⟨rfl, rfl, rfl, rfl, rfl⟩

theorem run_ofParams_bind {α β : Type} (shape : Params.Shape) (value : α) (work : α → Serving β)
    (s : Session) : (ofParams shape (.ok value) >>= work).run s = (work value).run s := rfl

/-- A session does what its action says and then sends messages of the given kind. -/
def Performs (cfg : Config) (kind : Outgoing → Bool) (s : Session) (action : Action)
    (t : Session) : Prop :=
  t.documents = (cfg.perform s action).documents ∧
    ∃ more, t.sent = (cfg.perform s action).sent ++ more ∧
      ∀ message ∈ more, kind message = true

section

variable {cfg : Config} {kind : Outgoing → Bool} {s t u : Session} {action : Action}

theorem performs_of_eq (hdocuments : t.documents = (cfg.perform s action).documents)
    (hsent : t.sent = (cfg.perform s action).sent) : cfg.Performs kind s action t := by
  refine ⟨hdocuments, [], ?_, List.forall_mem_nil _⟩
  rw [hsent, List.append_nil]

theorem Performs.mono {wider : Outgoing → Bool} (hperforms : cfg.Performs kind s action t)
    (hkind : ∀ {message}, kind message = true → wider message = true) :
    cfg.Performs wider s action t := by
  obtain ⟨hdocuments, more, hsent, hmore⟩ := hperforms
  exact ⟨hdocuments, more, hsent, fun message hmessage => hkind (hmore message hmessage)⟩

theorem Performs.of_logged {entries : List Log.Entry}
    (hperforms : cfg.Performs kind (s.logged entries) action t) :
    cfg.Performs kind s action t := by
  have halike := cfg.perform_logged s entries action
  obtain ⟨hdocuments, more, hsent, hmore⟩ := hperforms
  exact ⟨hdocuments.trans halike.documents, more, by rw [hsent, halike.sent], hmore⟩

theorem Performs.send (hperforms : cfg.Performs kind s action t) {message : Outgoing}
    (hmessage : kind message = true) (hdocuments : u.documents = t.documents)
    (hsent : u.sent = t.sent ++ message.written) : cfg.Performs kind s action u := by
  obtain ⟨hsame, more, hbefore, hmore⟩ := hperforms
  refine ⟨hdocuments.trans hsame, more ++ message.written, ?_, ?_⟩
  · rw [hsent, hbefore, List.append_assoc]
  · intro other hother
    rcases List.mem_append.mp hother with hold | hnew
    · exact hmore other hold
    · rw [Outgoing.eq_of_mem_written hnew]
      exact hmessage

end

theorem mem_of_lookup {α : Type} {methods : List (Text × α)} {method : Text} {value : α}
    (hlookup : methods.lookup method = some value) : (method, value) ∈ methods := by
  obtain ⟨front, back, rfl, -⟩ := List.lookup_eq_some_iff.mp hlookup
  exact List.mem_append_right front List.mem_cons_self

/-- The path of the root that is named, if it is one. -/
def rootPath? (params : Json) : Option Path :=
  match namedRoot params with
  | .ok (some uri) => (Uri.toPath uri).toOption
  | _ => none

/-- To start takes the root that is named, unless one is fixed, and does nothing else. -/
theorem snd_run_takeRoot (cfg : Config) (params : Json) (s : Session) :
    ∃ log, ((cfg.takeRoot params).run s).2 = { s with
      root := if cfg.rootOverride.isSome then s.root else (rootPath? params).or s.root
      log } := by
  unfold takeRoot rootPath?
  split
  · exact ⟨s.log, rfl⟩
  · simp only [run_bind, run_lift]
    cases namedRoot params with
    | error fault => exact ⟨s.log, rfl⟩
    | ok root =>
        cases root with
        | none => exact ⟨s.log, rfl⟩
        | some uri =>
            simp only [run_bind, run_lift]
            cases Uri.toPath uri with
            | error cause => exact ⟨s.log, rfl⟩
            | ok path => exact ⟨_, rfl⟩

/-- A query about a place looks its document up, when its parameters can be read. -/
theorem alike_placed (cfg : Config) (shape : Params.Shape) (params : Json)
    {work : Params.PositionParams → Serving Json} {s : Session}
    (hwork : ∀ place, (cfg.visited s place.uri).Alike ((work place).run s).2) :
    (cfg.perform s (Action.placed cfg.readers shape params)).Alike
      ((ofParams shape (cfg.readers.place shape params) >>= work).run s).2 := by
  rw [Action.placed]
  cases cfg.readers.place shape params with
  | error reason => exact .refl s
  | ok place => exact hwork place

/-- A query does to the session what looking up its document does. -/
theorem alike_answer (cfg : Config) {request : Request} (hquery : request.isQuery = true)
    (params : Json) (s : Session) :
    (cfg.perform s (Action.answer cfg.readers request params)).Alike
      ((cfg.answer request params).run s).2 := by
  cases request with
  | start => exact nomatch hquery
  | shutdown => exact nomatch hquery
  | hover =>
      apply cfg.alike_placed Params.hoverShape params
      intro place
      exact (cfg.alike_hover place s).trans (alike_run_bind _ (fun _ => quiet_pure _) s)
  | definition =>
      apply cfg.alike_placed Params.definitionShape params
      intro place
      exact (cfg.alike_definition place s).trans (alike_run_bind _ (fun _ => quiet_pure _) s)
  | outline =>
      rw [answer, Action.answer, Action.outlined]
      cases cfg.readers.document Params.symbolShape params with
      | error reason => exact .refl s
      | ok uri =>
          exact (cfg.alike_outline uri s).trans (alike_run_bind _ (fun _ => quiet_pure _) s)
  | completion =>
      apply cfg.alike_placed Params.completionShape params
      intro place
      exact (cfg.alike_completion place s).trans (alike_run_bind _ (fun _ => quiet_pure _) s)

/-- A request performs its action, and sends nothing else before its reply. -/
theorem answer_performs (cfg : Config) (request : Request) (params : Json) (s : Session) :
    ((cfg.answer request params).run s).2.documents =
        (cfg.perform s (Action.answer cfg.readers request params)).documents ∧
      ((cfg.answer request params).run s).2.sent =
        (cfg.perform s (Action.answer cfg.readers request params)).sent := by
  cases hquery : request.isQuery with
  | true =>
      have halike := cfg.alike_answer hquery params s
      exact ⟨halike.documents, halike.sent⟩
  | false =>
      cases request with
      | start =>
          have halike := alike_run_bind (cfg.takeRoot params) (fun _ => quiet_pure introduction) s
          obtain ⟨log, hroot⟩ := cfg.snd_run_takeRoot params s
          rw [hroot] at halike
          exact ⟨halike.documents, halike.sent⟩
      | shutdown => exact ⟨rfl, rfl⟩
      | _ => exact nomatch hquery

/-- A notification performs its action, and may then show the user an error. -/
theorem take_performs (cfg : Config) (notification : Notification) (params : Json) (s : Session) :
    cfg.Performs Outgoing.isAlert s (Action.take cfg.readers notification params)
      ((cfg.take notification params).run s).2 := by
  cases notification with
  | started => exact performs_of_eq rfl rfl
  | exit => exact performs_of_eq rfl rfl
  | opened =>
      rw [take, Action.take, Action.opened]
      cases cfg.readers.opened params with
      | error reason => exact performs_of_eq rfl rfl
      | ok item =>
          have halike := cfg.alike_refresh item.uri item.text s
          rw [run_ofParams_bind, run_bind]
          generalize (cfg.refresh item.uri item.text).run s = refreshed at halike
          rcases refreshed with ⟨outcome, t⟩
          have hkept : cfg.Performs Outgoing.isAlert s (.write item.uri item.text) t :=
            performs_of_eq halike.documents halike.sent
          cases outcome with
          | error fault => exact hkept
          | ok document =>
              simp only
              split
              · rw [run_bind, run_note]
                dsimp only
                rw [run_send]
                exact hkept.send rfl rfl rfl
              · exact hkept
  | changed =>
      rw [take, Action.take, Action.changed]
      cases cfg.readers.changed params with
      | error reason => exact performs_of_eq rfl rfl
      | ok change =>
          rw [run_ofParams_bind]
          dsimp only
          cases change.texts.getLast? with
          | none => exact performs_of_eq rfl rfl
          | some text =>
              have halike := (cfg.alike_refresh change.uri text s).trans
                (alike_run_bind _ (fun _ => quiet_pure ()) s)
              exact performs_of_eq halike.documents halike.sent
  | closed =>
      rw [take, Action.take, Action.closed]
      cases cfg.readers.document Params.closeShape params with
      | error reason => exact performs_of_eq rfl rfl
      | ok uri =>
          rw [run_ofParams_bind]
          simp only [close, run_bind, run_get, run_modify, run_pure, run_publish]
          exact performs_of_eq rfl rfl

/-- What the log says when values are to be shown. -/
def showing (values : List Json) (entry : Log.Entry) : List Log.Entry :=
  if Json.allWritable values then [entry] else []

theorem run_noteShowing (values : List Json) (level : Log.Level) (message : Text) (s : Session) :
    (noteShowing values level message).run s =
      (.ok (), s.logged (showing values ⟨level, message⟩)) := by
  rw [noteShowing, showing]
  split
  · exact run_note level message s
  · rw [run_pure, Session.logged, List.append_nil]

/-- For a notification that is not known nothing is done. -/
theorem snd_run_serveNotification_unknown (cfg : Config) {method : Json}
    (hmethod : ∀ notification, lookUp Notification.methods method ≠ .ok (some notification))
    (params : Json) (s : Session) :
    ∃ log, ((cfg.serveNotification method params).run s).2 = { s with log } := by
  rw [serveNotification, run_bind, run_noteShowing]
  dsimp only
  rw [run_bind, run_lift]
  cases hlookup : lookUp Notification.methods method with
  | error fault => exact ⟨_, rfl⟩
  | ok found =>
      cases found with
      | none =>
          dsimp only
          rw [run_noteShowing]
          exact ⟨_, rfl⟩
      | some notification => exact absurd hlookup (hmethod notification)

/-- The session that a notification is taken in: its arrival is noted. -/
def arrived (s : Session) (method : Text) : Session :=
  s.logged [⟨.debug, "<- notification method=" ++ method⟩]

/-- How the work on a notification that is known goes on when the notification is taken. -/
theorem run_serveNotification_of_lookup (cfg : Config) {method : Text}
    {notification : Notification} (hmethod : Notification.methods.lookup method = some notification)
    (params : Json) (s : Session) :
    (cfg.serveNotification (.str method) params).run s =
      (match ((cfg.take notification params).run (arrived s method)).1 with
        | .ok () => pure ()
        | .error fault =>
            if fault.isOrdinary then do
              note .error ("Error handling " ++ method)
              send (.alert (serverName ++ ": " ++ method ++ " failed: " ++ fault.message))
            else throw fault).run
        ((cfg.take notification params).run (arrived s method)).2 := by
  have hlookup : lookUp Notification.methods (.str method) = .ok (some notification) := by
    rw [lookUp, hmethod]
  rw [serveNotification, run_bind, run_noteShowing]
  dsimp only
  rw [run_bind, run_lift, hlookup]
  dsimp only
  rw [run_bind, run_attempt]
  rfl

theorem serveNotification_performs (cfg : Config) (method : Text) (params : Json)
    (s : Session) :
    cfg.Performs Outgoing.isAlert s (Action.ofNotification cfg.readers method params)
      ((cfg.serveNotification (.str method) params).run s).2 := by
  cases hlookup : Notification.methods.lookup method with
  | none =>
      have hunknown : ∀ notification,
          lookUp Notification.methods (.str method) ≠ .ok (some notification) := by
        simp [lookUp, hlookup]
      obtain ⟨log, hrun⟩ := cfg.snd_run_serveNotification_unknown hunknown params s
      rw [Action.ofNotification_eq_idle hlookup, hrun]
      exact performs_of_eq rfl rfl
  | some notification =>
      have htaken : cfg.Performs Outgoing.isAlert s
          (Action.ofNotification cfg.readers method params)
          ((cfg.take notification params).run (arrived s method)).2 := by
        rw [Action.ofNotification_of_mem (mem_of_lookup hlookup)]
        exact (cfg.take_performs notification params _).of_logged
      rw [cfg.run_serveNotification_of_lookup hlookup]
      generalize (cfg.take notification params).run _ = taken at htaken ⊢
      rcases taken with ⟨outcome, t⟩
      cases outcome with
      | ok done => exact htaken
      | error fault =>
          dsimp only
          split
          · rw [run_bind, run_note]
            dsimp only
            rw [run_send]
            exact htaken.send rfl rfl rfl
          · exact htaken

/-- The session that a request is answered in: its arrival is noted. -/
def received (s : Session) (id : Json) (method : Text) : Session :=
  s.logged (showing [id, .str method]
    ⟨.debug, "<- request id=" ++ id.display ++ " method=" ++ method⟩)

/-- The reply to a request whose work has ended. -/
def reply (id : Json) : Except Fault Json → Outgoing
  | .ok result => .response id result
  | .error (.rpc code message data) => .failure id code message data
  | .error fault => .failure id internalError (fault.kind ++ ": " ++ fault.message) .null

theorem isAside_reply (id : Json) (outcome : Except Fault Json) :
    (reply id outcome).isAside = true := by
  unfold reply
  split <;> rfl

/-- How the work on a request that is known goes on when the request is answered. -/
theorem run_serveRequest_of_lookup (cfg : Config) (id : Json) {method : Text}
    {request : Request} (hmethod : Request.methods.lookup method = some request) (params : Json)
    (s : Session) :
    (cfg.serveRequest id (.str method) params).run s =
      (match ((cfg.answer request params).run (received s id method)).1 with
        | .ok result => send (.response id result)
        | .error (.rpc code message data) => send (.failure id code message data)
        | .error fault =>
            if fault.isOrdinary then do
              note .error ("Internal error handling " ++ method)
              send (.failure id internalError (fault.kind ++ ": " ++ fault.message) .null)
            else throw fault).run
        ((cfg.answer request params).run (received s id method)).2 := by
  have hlookup : lookUp Request.methods (.str method) = .ok (some request) := by
    rw [lookUp, hmethod]
  rw [serveRequest, run_bind, run_noteShowing]
  dsimp only
  rw [run_bind, run_lift, hlookup]
  dsimp only
  rw [run_bind, run_attempt]
  rfl

/-- A request that is known gets its reply behind all that its work has sent, if the
reply can be written. -/
theorem run_serveRequest_known (cfg : Config) (id : Json) {method : Text} {request : Request}
    (hmethod : Request.methods.lookup method = some request) (params : Json) (s : Session)
    (hordinary : ∀ fault, ((cfg.answer request params).run (received s id method)).1 =
      .error fault → fault.isOrdinary = true) :
    ∃ t, (cfg.serveRequest id (.str method) params).run s =
        ((reply id ((cfg.answer request params).run (received s id method)).1).sending, t) ∧
      t.documents = ((cfg.answer request params).run (received s id method)).2.documents ∧
      t.sent = ((cfg.answer request params).run (received s id method)).2.sent ++
        (reply id ((cfg.answer request params).run (received s id method)).1).written := by
  rw [cfg.run_serveRequest_of_lookup id hmethod]
  generalize (cfg.answer request params).run _ = answered at hordinary ⊢
  rcases answered with ⟨outcome, t⟩
  -- every branch ends with the sending of the reply, some of them behind a note
  have hsend : ∀ (message : Outgoing) (u : Session), u.documents = t.documents →
      u.sent = t.sent → ∃ v, (send message).run u = (message.sending, v) ∧
        v.documents = t.documents ∧ v.sent = t.sent ++ message.written := by
    intro message u hdocuments hsent
    rw [run_send]
    exact ⟨_, rfl, hdocuments, congrArg (· ++ message.written) hsent⟩
  cases outcome with
  | ok result => exact hsend _ t rfl rfl
  | error fault =>
      have hfault := hordinary fault rfl
      cases fault with
      | interrupt message => exact nomatch hfault
      | rpc code message data => exact hsend _ t rfl rfl
      | _ => exact hsend _ _ rfl rfl

theorem run_serveRequest_interrupted (cfg : Config) (id : Json) {method : Text}
    {request : Request} (hmethod : Request.methods.lookup method = some request) (params : Json)
    (s : Session) {fault : Fault} (hfault : fault.isOrdinary = false)
    (houtcome : ((cfg.answer request params).run (received s id method)).1 = .error fault) :
    (cfg.serveRequest id (.str method) params).run s =
      (.error fault, ((cfg.answer request params).run (received s id method)).2) := by
  rw [cfg.run_serveRequest_of_lookup id hmethod]
  generalize (cfg.answer request params).run _ = answered at houtcome ⊢
  rcases answered with ⟨outcome, t⟩
  simp only at houtcome
  subst houtcome
  cases fault with
  | interrupt message => rfl
  | _ => exact nomatch hfault

/-- The answer to a request whose method is not known, when the method can be shown. -/
def refusal (id : Json) (shown : Text) : Outgoing :=
  .failure id methodNotFound ("Unhandled method: " ++ shown) .null

/-- A request that is not known is answered so, if its method can be shown and the answer
can be written. -/
theorem run_serveRequest_unknown (cfg : Config) (id : Json) {method : Json}
    (hmethod : lookUp Request.methods method = .ok none) (params : Json) (s : Session) :
    ∃ t, t.documents = s.documents ∧
      ((method.display? = none ∧ t.sent = s.sent ∧
          (cfg.serveRequest id method params).run s = (.error .unwritable, t)) ∨
        ∃ shown, method.display? = some shown ∧ t.sent = s.sent ++ (refusal id shown).written ∧
          (cfg.serveRequest id method params).run s = ((refusal id shown).sending, t)) := by
  rw [serveRequest, run_bind, run_noteShowing]
  dsimp only
  rw [run_bind, run_lift, hmethod]
  dsimp only
  cases method.display? with
  | none => refine ⟨_, ?_, Or.inl ⟨rfl, ?_, rfl⟩⟩ <;> rfl
  | some shown =>
      dsimp only
      rw [run_send]
      refine ⟨_, ?_, Or.inr ⟨shown, rfl, ?_, rfl⟩⟩ <;> rfl

theorem serveRequest_performs_unknown (cfg : Config) (id : Json) {method : Json}
    (hmethod : lookUp Request.methods method = .ok none) (params : Json) (s : Session) :
    cfg.Performs Outgoing.isAside s .idle ((cfg.serveRequest id method params).run s).2 := by
  have hidle : cfg.Performs Outgoing.isAside s .idle s := performs_of_eq rfl rfl
  obtain ⟨t, hdocuments, ⟨-, hsent, hrun⟩ | ⟨shown, -, hsent, hrun⟩⟩ :=
    cfg.run_serveRequest_unknown id hmethod params s
  · rw [hrun]
    exact performs_of_eq hdocuments hsent
  · rw [hrun]
    exact hidle.send rfl hdocuments hsent

theorem serveRequest_performs (cfg : Config) (id : Json) (method : Text) (params : Json)
    (s : Session) :
    cfg.Performs Outgoing.isAside s (Action.ofRequest cfg.readers method params)
      ((cfg.serveRequest id (.str method) params).run s).2 := by
  cases hlookup : Request.methods.lookup method with
  | none =>
      have hunknown : lookUp Request.methods (.str method) = .ok none := by
        simp [lookUp, hlookup]
      rw [Action.ofRequest_eq_idle hlookup]
      exact cfg.serveRequest_performs_unknown id hunknown params s
  | some request =>
      have hanswered := cfg.answer_performs request params (received s id method)
      have hperforms : cfg.Performs Outgoing.isAside s
          (Action.ofRequest cfg.readers method params)
          ((cfg.answer request params).run (received s id method)).2 := by
        rw [Action.ofRequest_of_mem (mem_of_lookup hlookup)]
        exact (performs_of_eq hanswered.1 hanswered.2).of_logged
      by_cases hordinary : ∀ fault,
          ((cfg.answer request params).run (received s id method)).1 = .error fault →
            fault.isOrdinary = true
      · obtain ⟨t, hrun, hdocuments, hsent⟩ :=
          cfg.run_serveRequest_known id hlookup params s hordinary
        rw [hrun]
        exact hperforms.send (isAside_reply _ _) hdocuments hsent
      · simp only [Classical.not_forall, Bool.not_eq_true] at hordinary
        obtain ⟨fault, houtcome, hfault⟩ := hordinary
        rw [cfg.run_serveRequest_interrupted id hlookup params s hfault houtcome]
        exact hperforms

theorem lookUp_ne_some {α : Type} (methods : List (Text × α)) {method : Json}
    (hmethod : ∀ name, method ≠ .str name) (value : α) :
    lookUp methods method ≠ .ok (some value) := by
  cases method with
  | str name => exact absurd rfl (hmethod name)
  | _ => simp [lookUp]

/-- A request whose method is no string does nothing to the documents. -/
theorem serveRequest_performs_idle (cfg : Config) (id : Json) {method : Json}
    (hmethod : ∀ name, method ≠ .str name) (params : Json) (s : Session) :
    cfg.Performs Outgoing.isAside s .idle ((cfg.serveRequest id method params).run s).2 := by
  cases hlookup : lookUp Request.methods method with
  | error fault =>
      rw [serveRequest, run_bind, run_noteShowing]
      dsimp only
      rw [run_bind, run_lift, hlookup]
      exact performs_of_eq rfl rfl
  | ok found =>
      cases found with
      | none => exact cfg.serveRequest_performs_unknown id hlookup params s
      | some request => exact absurd hlookup (lookUp_ne_some _ hmethod request)

theorem handle_of_method (cfg : Config) {message : Json.Fields} {method : Text}
    (hmethod : Json.Fields.get? message "method" = some (.str method)) :
    cfg.handle message =
      if ((Json.Fields.get? message "id").getD .null).isNull then
        cfg.serveNotification (.str method) (paramsOf message)
      else
        cfg.serveRequest ((Json.Fields.get? message "id").getD .null) (.str method)
          (paramsOf message) := by
  unfold handle
  rw [hmethod]
  rfl

/-- Every message performs its action, and what else is sent with it is about no
document. -/
theorem handle_performs (cfg : Config) (message : Json.Fields) (s : Session) :
    cfg.Performs Outgoing.isAside s (Action.ofMessage cfg.readers message)
      ((cfg.handle message).run s).2 := by
  have hother : ∀ id params method : Json, (∀ name, method ≠ .str name) →
      cfg.Performs Outgoing.isAside s .idle
        ((if id.isNull then cfg.serveNotification method params
          else cfg.serveRequest id method params).run s).2 := by
    intro id params method hmethod
    split
    · obtain ⟨log, hrun⟩ := cfg.snd_run_serveNotification_unknown
        (fun notification => lookUp_ne_some _ hmethod notification) params s
      rw [hrun]
      exact performs_of_eq rfl rfl
    · exact cfg.serveRequest_performs_idle id hmethod params s
  have hignored : ∀ values level text,
      cfg.Performs Outgoing.isAside s .idle ((noteShowing values level text).run s).2 := by
    intro values level text
    rw [run_noteShowing]
    exact performs_of_eq rfl rfl
  unfold handle Action.ofMessage
  cases Json.Fields.get? message "method" with
  | none => exact hignored _ _ _
  | some method =>
      dsimp only [Option.getD_some]
      generalize (Json.Fields.get? message "id").getD .null = id
      cases method with
      | null => exact hignored _ _ _
      | str name =>
          cases id with
          | null =>
              exact (cfg.serveNotification_performs name _ s).mono
                Outgoing.isAside_of_isAlert
          | _ => exact cfg.serveRequest_performs _ name _ s
      | _ => exact hother id _ _ (fun name => by simp)

end Config

end EditorBridge
