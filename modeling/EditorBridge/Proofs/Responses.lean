/-
The discipline of responses.  With a host that raises only ordinary faults, a request
is served up to one response under its identifier, behind at most one list of
diagnostics; a notification gets none.  A response that cannot be written is all that
keeps a request from being served to its end.
-/
import EditorBridge.Proofs.Messages
import EditorBridge.Proofs.OrdinaryFaults

namespace EditorBridge

namespace Outgoing

/-- A field of a message as it is sent. -/
def field? (message : Outgoing) (key : Text) : Option Json := Json.Fields.get? message.fields key

/-- The code of the error that a message carries. -/
def errorCode? (message : Outgoing) : Option Json :=
  (message.field? "error").bind fun error => error.get? "code"

theorem field?_id_of_isAlert {message : Outgoing} (halert : message.isAlert = true) :
    message.field? "id" = none := by
  cases message with
  | alert text => rfl
  | _ => exact nomatch halert

/-- The message is a list of diagnostics about a document. -/
def IsPublication (message : Outgoing) : Prop :=
  message.field? "method" = some (.str "textDocument/publishDiagnostics") ∧
    message.field? "id" = none

/-- The message carries one of `result` and `error`, and not the other. -/
def OneOutcome (message : Outgoing) : Prop :=
  (message.field? "result").isSome = !(message.field? "error").isSome

end Outgoing

/-- What is sent between two sessions is at most one list of diagnostics. -/
def Session.Tells (s t : Session) : Prop :=
  ∃ told, t.sent = s.sent ++ told ∧ told.length ≤ 1 ∧ ∀ frame ∈ told, frame.IsPublication

theorem Session.Tells.refl (s : Session) : s.Tells s :=
  ⟨[], (List.append_nil _).symm, Nat.zero_le 1, List.forall_mem_nil _⟩

namespace Config

open Serving Outgoing

theorem tells_told (cfg : Config) {s t : Session} {uri : Text} {list : List Diagnostic}
    (hsent : t.sent = s.sent ++ cfg.told uri list) : s.Tells t := by
  unfold told at hsent
  split at hsent
  · refine ⟨_, hsent, length_written_le _, ?_⟩
    intro frame hframe
    rw [eq_of_mem_written hframe]
    exact ⟨rfl, rfl⟩
  · exact ⟨_, hsent, Nat.zero_le 1, List.forall_mem_nil _⟩

theorem tells_stored (cfg : Config) (s : Session) (uri : Text) (found : Except Fault Entry) :
    s.Tells (cfg.stored s uri found) := by
  cases found with
  | error fault => exact .refl s
  | ok entry => exact cfg.tells_told rfl

theorem tells_perform (cfg : Config) (s : Session) (action : Action) :
    s.Tells (cfg.perform s action) := by
  cases action with
  | write uri text => exact cfg.tells_stored s uri _
  | forget uri => exact cfg.tells_told rfl
  | visit uri =>
      simp only [perform, visited]
      split
      · exact .refl s
      · exact cfg.tells_stored s uri _
  | idle => exact .refl s

theorem field?_id_reply (id : Json) (outcome : Except Fault Json) :
    (reply id outcome).field? "id" = some id := by
  unfold reply
  split <;> rfl

theorem oneOutcome_reply (id : Json) (outcome : Except Fault Json) :
    (reply id outcome).OneOutcome := by
  unfold reply
  split <;> rfl

/-- A reply says that the method was not found exactly when the work on the request
ended with an error of that code. -/
theorem errorCode?_reply_iff (id : Json) (outcome : Except Fault Json) :
    (reply id outcome).errorCode? = some (.int methodNotFound) ↔
      ∃ text data, outcome = .error (.rpc methodNotFound text data) := by
  constructor
  · intro h
    cases outcome with
    | ok result => exact nomatch h
    | error fault =>
        cases fault with
        | rpc code text data =>
            have hcode : code = methodNotFound := Json.int.inj (Option.some.inj h)
            exact ⟨text, data, by rw [hcode]⟩
        | _ => exact absurd (Json.int.inj (Option.some.inj h)) (by decide)
  · rintro ⟨text, data, rfl⟩
    rfl

/-- The methods that a request may have. -/
def requestNames : List Text :=
  ["initialize", "shutdown", "textDocument/hover", "textDocument/definition",
    "textDocument/documentSymbol", "textDocument/completion"]

theorem lookup_methods_eq_none_iff (method : Text) :
    Request.methods.lookup method = none ↔ method ∉ requestNames := by
  rw [List.lookup_eq_none_iff]
  simp [Request.methods, requestNames]

/-- How a request is answered: at most one list of diagnostics is sent, and then one
response under its identifier.  The response says that the method was not found exactly
when it is not one of the six, or when the work on the request ended with that error. -/
def Answered (cfg : Config) (s : Session) (id : Json) (method : Text) (params : Json)
    (ended : Except Fault Unit × Session) : Prop :=
  ∃ told response, Concludes s told response ended ∧
    told.length ≤ 1 ∧ (∀ frame ∈ told, frame.IsPublication) ∧
    response.field? "id" = some id ∧ response.OneOutcome ∧
    (response.errorCode? = some (.int (-32601)) ↔
      method ∉ requestNames ∨
        ∃ request text data, Request.methods.lookup method = some request ∧
          ((cfg.answer request params).run (received s id method)).1 =
            .error (.rpc (-32601) text data))

/-- A request with an unknown method is refused. -/
theorem serveRequest_refuses (cfg : Config) (s : Session) (id : Json) {method : Text}
    (hlookup : Request.methods.lookup method = none) (params : Json) :
    ∃ shown, Concludes s [] (refusal id shown)
      ((cfg.serveRequest id (.str method) params).run s) := by
  have hunknown : lookUp Request.methods (.str method) = .ok none := by
    rw [lookUp, hlookup]
  obtain ⟨t, -, ⟨hshown, -⟩ | ⟨shown, -, hsent, hrun⟩⟩ :=
    cfg.run_serveRequest_unknown id hunknown params s
  · cases hshown
  · rw [← List.append_nil s.sent] at hsent
    exact ⟨shown, concludes_of_sending hrun hsent⟩

theorem serveRequest_answers {cfg : Config} (hhost : cfg.host.IsOrdinary) (s : Session)
    (id : Json) (method : Text) (params : Json) :
    cfg.Answered s id method params ((cfg.serveRequest id (.str method) params).run s) := by
  cases hlookup : Request.methods.lookup method with
  | none =>
      have hname := (lookup_methods_eq_none_iff method).mp hlookup
      obtain ⟨shown, hconcludes⟩ := cfg.serveRequest_refuses s id hlookup params
      exact ⟨[], refusal id shown, hconcludes, Nat.zero_le 1, List.forall_mem_nil _, rfl, rfl,
        fun _ => Or.inl hname, fun _ => rfl⟩
  | some request =>
      obtain ⟨t, hrun, -, hsent⟩ := cfg.run_serveRequest_known id hlookup params s
        (ordinary_answer hhost request params _)
      have hanswer := (cfg.answer_performs request params (received s id method)).2
      obtain ⟨told, htold, hlength, hframes⟩ :=
        cfg.tells_perform (received s id method) (Action.answer cfg.readers request params)
      rw [hanswer, htold] at hsent
      refine ⟨told, _, concludes_of_sending hrun hsent, hlength, hframes, field?_id_reply _ _,
        oneOutcome_reply _ _, (errorCode?_reply_iff _ _).trans ?_⟩
      constructor
      · rintro ⟨text, data, houtcome⟩
        exact Or.inr ⟨request, text, data, hlookup, houtcome⟩
      · rintro (hname | ⟨other, text, data, hother, houtcome⟩)
        · have hnone := (lookup_methods_eq_none_iff method).mpr hname
          rw [hlookup] at hnone
          cases hnone
        · obtain rfl := Option.some.inj (hlookup.symm.trans hother)
          exact ⟨text, data, houtcome⟩

/-- What is sent for a notification carries no identifier. -/
theorem serveNotification_sends_no_id (cfg : Config) (s : Session) (method : Text)
    (params : Json) :
    ∃ frames, ((cfg.serveNotification (.str method) params).run s).2.sent = s.sent ++ frames ∧
      ∀ frame ∈ frames, frame.field? "id" = none := by
  obtain ⟨-, alerts, hsent, halerts⟩ := cfg.serveNotification_performs method params s
  obtain ⟨told, htold, -, hframes⟩ :=
    cfg.tells_perform s (Action.ofNotification cfg.readers method params)
  refine ⟨told ++ alerts, ?_, ?_⟩
  · rw [hsent, htold, List.append_assoc]
  · intro frame hframe
    rcases List.mem_append.mp hframe with hframe | hframe
    · exact (hframes frame hframe).2
    · exact field?_id_of_isAlert (halerts frame hframe)

theorem handle_of_id (cfg : Config) {message : Json.Fields} {method : Text} {id : Json}
    (hmethod : Json.Fields.get? message "method" = some (.str method))
    (hid : Json.Fields.get? message "id" = some id) (hnull : id ≠ .null) :
    cfg.handle message = cfg.serveRequest id (.str method) (paramsOf message) := by
  rw [cfg.handle_of_method hmethod, hid]
  cases id with
  | null => exact absurd rfl hnull
  | _ => rfl

/-- A host that knows no text which parses. -/
def brokenOff : Host where
  parse := fun _ _ _ => .error (.parse "a:1:1: error: unexpected end")
  analyze := fun _ tree _ => .ok tree
  read := fun _ _ => .ok "local"

theorem isOrdinary_brokenOff : brokenOff.IsOrdinary :=
  ⟨fun _ _ _ => .error rfl, fun _ tree _ => .ok tree, fun _ _ => .ok _⟩

/-- A response under an identifier that cannot be written cannot be written. -/
theorem not_isWritable_of_id {message : Outgoing} {id : Json}
    (hfield : message.field? "id" = some id)
    (hid : ¬id.Writable) : ¬message.IsWritable := by
  intro hwritable
  cases hwritable with
  | obj hkeys hvalues =>
      obtain ⟨field, hfound, rfl⟩ := Option.map_eq_some_iff.mp hfield
      exact hid (hvalues field (List.mem_of_find?_eq_some hfound))

end Config

end EditorBridge
