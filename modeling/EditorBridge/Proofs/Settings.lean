/-
What messages set.  A session keeps its root, and whether it was asked to shut down and to
exit, through the service of every message but three: a request to start may name the root,
a request to shut down and a notification to exit are noted for good.
-/
import EditorBridge.Proofs.Dispatch
import EditorBridge.Proofs.Ledger
import EditorBridge.Proofs.Steps

namespace EditorBridge

/-- The root of a session, and what it was asked for. -/
structure Settings where
  root : Option Path
  shutdownRequested : Bool
  exitRequested : Bool

def Session.settings (s : Session) : Settings := ⟨s.root, s.shutdownRequested, s.exitRequested⟩

/-- The root that parameters name: the path of a root URI that says something, or else of
such a root path. -/
def Params.root? : Json → Option Path
  | .obj fields =>
      match ((Json.Fields.get? fields "rootUri").filter Json.isTruthy).or
          ((Json.Fields.get? fields "rootPath").filter Json.isTruthy) with
      | some (.str uri) => (Uri.toPath uri).toOption
      | _ => none
  | _ => none

namespace Config

open Serving

/-- The root that a message names: only a request to start names one. -/
def startRoot? (message : Json.Fields) : Option Path :=
  if isRequest "initialize" message then Params.root? (paramsOf message) else none

/-- A message with a method is a request or a notification, and has no other method. -/
theorem isRequest_of_isRequest {method : Text} {message : Json.Fields}
    (hmessage : isRequest method message = true) (name : Text) :
    isRequest name message = (method == name) ∧ isNotification name message = false := by
  obtain ⟨hget, hid⟩ := isRequest_iff.mp hmessage
  unfold isRequest isNotification
  rw [hget]
  simp [hid]

theorem isRequest_of_isNotification {method : Text} {message : Json.Fields}
    (hmessage : isNotification method message = true) (name : Text) :
    isRequest name message = false ∧ isNotification name message = (method == name) := by
  obtain ⟨hget, hid⟩ := isNotification_iff.mp hmessage
  unfold isRequest isNotification
  rw [hget]
  simp [hid]

/-- The session behind a message, but for what is sent and logged around the work on it: a
request that is known is answered, a notification that is known is taken, and for any other
message nothing is done. -/
inductive Serves (cfg : Config) (s : Session) (message : Json.Fields) : Session → Prop where
  | unknown (sent : List Outgoing) (log : List Log.Entry)
      (hrequest : ∀ method, isRequest method message = true →
        Request.methods.lookup method = none)
      (hnotification : ∀ method, isNotification method message = true →
        Notification.methods.lookup method = none) :
      cfg.Serves s message { s with sent, log }
  | answered {method : Text} {request : Request} (id : Json) (sent : List Outgoing)
      (log : List Log.Entry) (hmessage : isRequest method message = true)
      (hlookup : Request.methods.lookup method = some request) :
      cfg.Serves s message
        { ((cfg.answer request (paramsOf message)).run (received s id method)).2 with sent, log }
  | taken {method : Text} {notification : Notification} (sent : List Outgoing)
      (log : List Log.Entry) (hmessage : isNotification method message = true)
      (hlookup : Notification.methods.lookup method = some notification) :
      cfg.Serves s message
        { ((cfg.take notification (paramsOf message)).run (arrived s method)).2 with sent, log }

theorem snd_run_serveRequest_unknown (cfg : Config) (id : Json) {method : Json}
    (hmethod : ∀ request, lookUp Request.methods method ≠ .ok (some request)) (params : Json)
    (s : Session) :
    ∃ sent log, ((cfg.serveRequest id method params).run s).2 = { s with sent, log } := by
  rw [serveRequest, run_bind, run_noteShowing]
  dsimp only
  rw [run_bind, run_lift]
  cases hlookup : lookUp Request.methods method with
  | error fault => exact ⟨s.sent, _, rfl⟩
  | ok found =>
      cases found with
      | none =>
          dsimp only
          cases method.display? with
          | none => exact ⟨s.sent, _, rfl⟩
          | some shown =>
              dsimp only
              rw [run_send]
              exact ⟨_, _, rfl⟩
      | some request => exact absurd hlookup (hmethod request)

/-- To send a message changes nothing but what is sent and logged. -/
theorem snd_run_send (message : Outgoing) (s : Session) :
    ∃ sent log, ((send message).run s).2 = { s with sent, log } := by
  rw [run_send]
  exact ⟨_, _, rfl⟩

theorem snd_run_serveRequest_known (cfg : Config) (id : Json) {method : Text}
    {request : Request} (hmethod : Request.methods.lookup method = some request) (params : Json)
    (s : Session) :
    ∃ sent log, ((cfg.serveRequest id (.str method) params).run s).2 =
      { ((cfg.answer request params).run (received s id method)).2 with sent, log } := by
  rw [cfg.run_serveRequest_of_lookup id hmethod]
  generalize (cfg.answer request params).run _ = answered
  rcases answered with ⟨outcome, t⟩
  cases outcome with
  | ok result => exact snd_run_send _ t
  | error fault =>
      cases fault with
      | interrupt message => exact ⟨t.sent, t.log, rfl⟩
      | rpc code message data => exact snd_run_send _ t
      | _ => exact snd_run_send _ { t with log := _ }

theorem snd_run_serveNotification_known (cfg : Config) {method : Text}
    {notification : Notification} (hmethod : Notification.methods.lookup method = some notification)
    (params : Json) (s : Session) :
    ∃ sent log, ((cfg.serveNotification (.str method) params).run s).2 =
      { ((cfg.take notification params).run (arrived s method)).2 with sent, log } := by
  rw [cfg.run_serveNotification_of_lookup hmethod]
  generalize (cfg.take notification params).run _ = ended
  rcases ended with ⟨outcome, t⟩
  cases outcome with
  | ok done => exact ⟨t.sent, t.log, rfl⟩
  | error fault =>
      cases hordinary : fault.isOrdinary with
      | true =>
          simp only [hordinary, if_true]
          rw [run_bind, run_note]
          exact snd_run_send _ { t with log := _ }
      | false =>
          simp only [hordinary, Bool.false_eq_true, if_false]
          exact ⟨t.sent, t.log, rfl⟩

theorem serves_serveRequest (cfg : Config) (s : Session) {message : Json.Fields} {method : Text}
    (hmessage : isRequest method message = true) (id : Json) :
    cfg.Serves s message ((cfg.serveRequest id (.str method) (paramsOf message)).run s).2 := by
  cases hlookup : Request.methods.lookup method with
  | none =>
      have hunknown : ∀ request, lookUp Request.methods (.str method) ≠ .ok (some request) := by
        simp [lookUp, hlookup]
      obtain ⟨sent, log, hrun⟩ :=
        cfg.snd_run_serveRequest_unknown id hunknown (paramsOf message) s
      rw [hrun]
      refine .unknown sent log ?_ ?_
      · intro name hname
        rw [(isRequest_of_isRequest hmessage name).1, beq_iff_eq] at hname
        rw [← hname, hlookup]
      · intro name hname
        rw [(isRequest_of_isRequest hmessage name).2] at hname
        cases hname
  | some request =>
      obtain ⟨sent, log, hrun⟩ :=
        cfg.snd_run_serveRequest_known id hlookup (paramsOf message) s
      rw [hrun]
      exact .answered id sent log hmessage hlookup

theorem serves_serveNotification (cfg : Config) (s : Session) {message : Json.Fields}
    {method : Text} (hmessage : isNotification method message = true) :
    cfg.Serves s message ((cfg.serveNotification (.str method) (paramsOf message)).run s).2 := by
  cases hlookup : Notification.methods.lookup method with
  | none =>
      have hunknown : ∀ notification,
          lookUp Notification.methods (.str method) ≠ .ok (some notification) := by
        simp [lookUp, hlookup]
      obtain ⟨log, hrun⟩ := cfg.snd_run_serveNotification_unknown hunknown (paramsOf message) s
      rw [hrun]
      refine .unknown s.sent log ?_ ?_
      · intro name hname
        rw [(isRequest_of_isNotification hmessage name).1] at hname
        cases hname
      · intro name hname
        rw [(isRequest_of_isNotification hmessage name).2, beq_iff_eq] at hname
        rw [← hname, hlookup]
  | some notification =>
      obtain ⟨sent, log, hrun⟩ :=
        cfg.snd_run_serveNotification_known hlookup (paramsOf message) s
      rw [hrun]
      exact .taken sent log hmessage hlookup

/-- What becomes of a session when a message is served. -/
theorem serves_after (cfg : Config) (s : Session) (message : Json.Fields) :
    cfg.Serves s message (cfg.after s message) := by
  by_cases hmethod : ∃ method, Json.Fields.get? message "method" = some (.str method)
  · obtain ⟨method, hget⟩ := hmethod
    rw [after, cfg.handle_of_method hget]
    split
    next hid => exact cfg.serves_serveNotification s (isNotification_iff.mpr ⟨hget, hid⟩)
    next hid =>
        rw [Bool.not_eq_true] at hid
        exact cfg.serves_serveRequest s (isRequest_iff.mpr ⟨hget, hid⟩) _
  · -- a method that is no string is none that is known
    have hunknown : ∀ sent log, cfg.Serves s message { s with sent, log } := by
      intro sent log
      refine .unknown sent log ?_ ?_
      · exact fun method h => absurd ⟨method, (isRequest_iff.mp h).1⟩ hmethod
      · exact fun method h => absurd ⟨method, (isNotification_iff.mp h).1⟩ hmethod
    have hstring : ∀ name, (Json.Fields.get? message "method").getD .null ≠ .str name := by
      intro name hname
      cases hget : Json.Fields.get? message "method" with
      | none => rw [hget] at hname; cases hname
      | some method =>
          rw [hget] at hname
          exact hmethod ⟨name, hget.trans (congrArg some hname)⟩
    unfold after handle
    dsimp only
    split
    · rw [run_noteShowing]
      exact hunknown s.sent _
    · split
      · obtain ⟨log, hrun⟩ := cfg.snd_run_serveNotification_unknown
          (lookUp_ne_some _ hstring) (paramsOf message) s
        rw [hrun]
        exact hunknown s.sent log
      · obtain ⟨sent, log, hrun⟩ := cfg.snd_run_serveRequest_unknown _
          (lookUp_ne_some _ hstring) (paramsOf message) s
        rw [hrun]
        exact hunknown sent log

theorem filter_isTruthy (found : Option Json) :
    found.filter Json.isTruthy =
      if (found.getD .null).isTruthy then some (found.getD .null) else none := by
  cases found with
  | none => rfl
  | some value => simp only [Option.filter, Option.getD]

/-- What is named as the root is a URI or something that is no text, which names none. -/
theorem root?_eq (params : Json) : Params.root? params = rootPath? params := by
  cases params with
  | obj fields =>
      simp only [Params.root?, rootPath?, namedRoot, filter_isTruthy]
      generalize (Json.Fields.get? fields "rootUri").getD .null = first
      generalize (Json.Fields.get? fields "rootPath").getD .null = second
      by_cases hfirst : first.isTruthy = true
      · simp only [hfirst, if_true, Option.some_or]
        cases first <;> rfl
      · simp only [hfirst, Bool.false_eq_true, if_false, Option.none_or]
        by_cases hsecond : second.isTruthy = true
        · simp only [hsecond, if_true]
          cases second <;> rfl
        · simp only [hsecond, Bool.false_eq_true, if_false]
  | _ => rfl

/-- A request to start takes the root that is named, and does nothing else. -/
theorem snd_run_answer_start (cfg : Config) (params : Json) (s : Session) :
    ∃ log, ((cfg.answer .start params).run s).2 = { s with
      root := if cfg.rootOverride.isSome then s.root else (Params.root? params).or s.root
      log } := by
  obtain ⟨log, hroot⟩ := cfg.snd_run_takeRoot params s
  refine ⟨log, ?_⟩
  rw [answer, run_bind, root?_eq, ← hroot]
  generalize (cfg.takeRoot params).run s = ended
  rcases ended with ⟨outcome, t⟩
  cases outcome <;> rfl

/-- The steps of the work on a message about a document set nothing. -/
theorem Steps.settings {cfg : Config} {about : Option Text} {s t : Session}
    (hsteps : cfg.Steps about s t) : t.settings = s.settings := by
  induction hsteps with
  | refl => rfl
  | tail _ hstep ih =>
      cases hstep with
      | noted documents sent log => exact ih
      | read other => exact ih
      | examined huri text => exact ih

theorem method_eq_iff {request : Request} {method : Text}
    (hmethod : (method, request) ∈ Request.methods) :
    (method = "initialize" ↔ request = .start) ∧ (method = "shutdown" ↔ request = .shutdown) := by
  simp only [Request.methods, List.mem_cons, Prod.mk.injEq, List.not_mem_nil, or_false] at hmethod
  rcases hmethod with ⟨rfl, rfl⟩ | ⟨rfl, rfl⟩ | ⟨rfl, rfl⟩ | ⟨rfl, rfl⟩ | ⟨rfl, rfl⟩ | ⟨rfl, rfl⟩
  all_goals simp

/-- What a request sets when it is answered. -/
theorem settings_answer (cfg : Config) {method : Text} {request : Request}
    (hmethod : (method, request) ∈ Request.methods) (params : Json) (s : Session) :
    ((cfg.answer request params).run s).2.settings =
      ⟨if cfg.rootOverride.isSome then s.root
        else (if method == "initialize" then Params.root? params else none).or s.root,
        s.shutdownRequested || method == "shutdown", s.exitRequested⟩ := by
  obtain ⟨hfirst, hshutdown⟩ := method_eq_iff hmethod
  have hstart : (method == "initialize") = decide (request = .start) :=
    decide_eq_decide.mpr hfirst
  have hstop : (method == "shutdown") = decide (request = .shutdown) :=
    decide_eq_decide.mpr hshutdown
  rw [hstart, hstop]
  cases hquery : request.isQuery with
  | true =>
      have hother : request ≠ .start ∧ request ≠ .shutdown := by
        constructor <;>
        · rintro rfl
          cases hquery
      rw [(stepwise_answer hquery params s).settings, decide_eq_false hother.1,
        decide_eq_false hother.2, Bool.or_false, if_neg Bool.false_ne_true, Option.none_or,
        ite_self]
      rfl
  | false =>
      cases request with
      | start =>
          obtain ⟨log, hrun⟩ := cfg.snd_run_answer_start params s
          rw [hrun, show decide (Request.start = .shutdown) = false from rfl, Bool.or_false]
          rfl
      | shutdown =>
          rw [show decide (Request.shutdown = .start) = false from rfl, if_neg Bool.false_ne_true,
            Option.none_or, ite_self, decide_eq_true rfl, Bool.or_true]
          rfl
      | _ => cases hquery

/-- What a notification sets when it is taken. -/
theorem settings_take (cfg : Config) {method : Text} {notification : Notification}
    (hmethod : (method, notification) ∈ Notification.methods) (params : Json) (s : Session) :
    ((cfg.take notification params).run s).2.settings =
      ⟨s.root, s.shutdownRequested, s.exitRequested || method == "exit"⟩ := by
  have hname : notification = .exit ↔ method = "exit" := by
    simp only [Notification.methods, List.mem_cons, Prod.mk.injEq, List.not_mem_nil, or_false]
      at hmethod
    rcases hmethod with ⟨rfl, rfl⟩ | ⟨rfl, rfl⟩ | ⟨rfl, rfl⟩ | ⟨rfl, rfl⟩ | ⟨rfl, rfl⟩
    all_goals simp
  by_cases hexit : notification = .exit
  · rw [beq_iff_eq.mpr (hname.mp hexit), Bool.or_true, hexit]
    rfl
  · rw [(stepwise_take hexit params s).settings,
      beq_eq_false_iff_ne.mpr (fun h => hexit (hname.mpr h)), Bool.or_false]
    rfl

/-- What a message sets: a request to start the root, unless one is fixed, and a request to
shut down and a notification to exit that they were asked for. -/
theorem settings_after (cfg : Config) (s : Session) (message : Json.Fields) :
    (cfg.after s message).settings =
      ⟨if cfg.rootOverride.isSome then s.root else (startRoot? message).or s.root,
        s.shutdownRequested || isRequest "shutdown" message,
        s.exitRequested || isNotification "exit" message⟩ := by
  have hserves := cfg.serves_after s message
  generalize cfg.after s message = t at hserves
  cases hserves with
  | unknown sent log hrequest hnotification =>
      have hstart : isRequest "initialize" message = false :=
        Bool.eq_false_iff.mpr fun h => Option.some_ne_none _ (hrequest _ h)
      have hshutdown : isRequest "shutdown" message = false :=
        Bool.eq_false_iff.mpr fun h => Option.some_ne_none _ (hrequest _ h)
      have hexit : isNotification "exit" message = false :=
        Bool.eq_false_iff.mpr fun h => Option.some_ne_none _ (hnotification _ h)
      rw [startRoot?, hstart, hshutdown, hexit, if_neg Bool.false_ne_true, Option.none_or,
        ite_self, Bool.or_false, Bool.or_false]
      rfl
  | answered id sent log hmessage hlookup =>
      rw [startRoot?, (isRequest_of_isRequest hmessage _).1, (isRequest_of_isRequest hmessage _).1,
        (isRequest_of_isRequest hmessage "exit").2, Bool.or_false]
      exact cfg.settings_answer (mem_of_lookup hlookup) (paramsOf message) _
  | taken sent log hmessage hlookup =>
      rw [startRoot?, (isRequest_of_isNotification hmessage _).1,
        (isRequest_of_isNotification hmessage _).1, (isRequest_of_isNotification hmessage _).2,
        Bool.or_false, if_neg Bool.false_ne_true, Option.none_or, ite_self]
      exact cfg.settings_take (mem_of_lookup hlookup) (paramsOf message) _

end Config

end EditorBridge
