/-
What becomes of a message.  With a host that raises only ordinary faults, a message is
served to its end, whatever its fields are, and what goes wrong ends in a response with
an error, in an error for the user to read, or in silence.  The exceptions are a method
that is an array or an object and cannot be looked up, the method of a request that is an
integer too long to be shown, and a last message that cannot be written: there the fault
ends the server.
-/
import EditorBridge.Proofs.Responses

namespace EditorBridge

/-- Whether a value can be looked up in a table of methods. -/
def Json.isUsable : Json → Bool
  | .arr _ | .obj _ => false
  | _ => true

theorem lookUp_of_not_isUsable {α : Type} (methods : List (Text × α)) {method : Json}
    (hmethod : method.isUsable = false) :
    lookUp methods method = .error (.unusableMethod method) := by
  cases method with
  | arr items => rfl
  | obj fields => rfl
  | _ => cases hmethod

/-- A value that can be looked up is found in no table unless it is a string. -/
theorem lookUp_of_isUsable {α : Type} (methods : List (Text × α)) {method : Json}
    (hmethod : method.isUsable = true) :
    lookUp methods method = .ok none ∨
      ∃ name value, method = .str name ∧ methods.lookup name = some value := by
  cases method with
  | str name =>
      cases hlookup : methods.lookup name with
      | none => exact Or.inl (by rw [lookUp, hlookup])
      | some value => exact Or.inr ⟨name, value, rfl, hlookup⟩
  | arr items => cases hmethod
  | obj fields => cases hmethod
  | _ => exact Or.inl rfl

/-- At most one list of diagnostics. -/
def Outgoing.IsNews (told : List Outgoing) : Prop :=
  told.length ≤ 1 ∧ ∀ frame ∈ told, frame.IsPublication

namespace Config

open Serving Outgoing

/-- How a message ends: what is sent for it first, and what is to be sent last.  A message
without a method and a notification that is not known end in silence; each request ends in a
response; a notification that fails ends in an error for the user to read. -/
inductive Ends (cfg : Config) (s : Session) (params : Json) :
    Json → Json → List Outgoing → Option Outgoing → Prop where
  | ignored (id : Json) : cfg.Ends s params .null id [] none
  | unhandled {method : Json} (hlookup : lookUp Notification.methods method = .ok none) :
      cfg.Ends s params method .null [] none
  | refused {method id : Json} {shown : Text} (hid : id ≠ .null)
      (hlookup : lookUp Request.methods method = .ok none)
      (hshown : method.display? = some shown) :
      cfg.Ends s params method id []
        (some (.failure id (-32601) ("Unhandled method: " ++ shown) .null))
  | answered {method : Text} {request : Request} {id result : Json} {told : List Outgoing}
      (hid : id ≠ .null) (hlookup : Request.methods.lookup method = some request)
      (htold : IsNews told)
      (houtcome : ((cfg.answer request params).run (received s id method)).1 = .ok result) :
      cfg.Ends s params (.str method) id told (some (.response id result))
  | declined {method : Text} {request : Request} {id data : Json} {code : Int} {text : Text}
      {told : List Outgoing} (hid : id ≠ .null)
      (hlookup : Request.methods.lookup method = some request) (htold : IsNews told)
      (houtcome : ((cfg.answer request params).run (received s id method)).1 =
        .error (.rpc code text data)) :
      cfg.Ends s params (.str method) id told (some (.failure id code text data))
  | failed {method : Text} {request : Request} {id : Json} {fault : Fault}
      {told : List Outgoing} (hid : id ≠ .null)
      (hlookup : Request.methods.lookup method = some request) (htold : IsNews told)
      (houtcome : ((cfg.answer request params).run (received s id method)).1 = .error fault)
      (hfault : ∀ code text data, fault ≠ .rpc code text data) :
      cfg.Ends s params (.str method) id told
        (some (.failure id (-32603) (fault.kind ++ ": " ++ fault.message) .null))
  | taken {method : Text} {notification : Notification} {told alerts : List Outgoing}
      (hlookup : Notification.methods.lookup method = some notification) (htold : IsNews told)
      (halerts : ∀ frame ∈ alerts, frame.isAlert = true)
      (houtcome : ((cfg.take notification params).run (arrived s method)).1 = .ok ()) :
      cfg.Ends s params (.str method) .null (told ++ alerts) none
  | alerted {method : Text} {notification : Notification} {fault : Fault}
      {told alerts : List Outgoing}
      (hlookup : Notification.methods.lookup method = some notification) (htold : IsNews told)
      (halerts : ∀ frame ∈ alerts, frame.isAlert = true)
      (houtcome : ((cfg.take notification params).run (arrived s method)).1 = .error fault) :
      cfg.Ends s params (.str method) .null (told ++ alerts)
        (some (.alert ("Nelua LSP: " ++ method ++ " failed: " ++ fault.message)))

theorem run_serveNotification_unknown (cfg : Config) {method : Json}
    (hmethod : lookUp Notification.methods method = .ok none) (params : Json) (s : Session) :
    ∃ t, (cfg.serveNotification method params).run s = (.ok (), t) ∧ t.sent = s.sent := by
  rw [serveNotification, run_bind, run_noteShowing]
  dsimp only
  rw [run_bind, run_lift, hmethod]
  dsimp only
  rw [run_noteShowing]
  exact ⟨_, rfl, rfl⟩

/-- The error that is to be shown for a notification whose work has ended. -/
def complaint? (method : Text) : Except Fault Unit → Option Outgoing
  | .ok () => none
  | .error fault => some (.alert (serverName ++ ": " ++ method ++ " failed: " ++ fault.message))

/-- A piece of work sends some messages; then it ends, or a last message is to be sent.  It
returns unless there is a last message that cannot be written. -/
def Finishes (s : Session) (front : List Outgoing) (last : Option Outgoing)
    (ended : Except Fault Unit × Session) : Prop :=
  match last with
  | none => ended.1 = .ok () ∧ ended.2.sent = s.sent ++ front
  | some message => Concludes s front message ended

/-- A notification that is known is served, and its fault is shown behind all that its work
has sent. -/
theorem run_serveNotification_known (cfg : Config) {method : Text} {notification : Notification}
    (hmethod : Notification.methods.lookup method = some notification) (params : Json) (s : Session)
    (hordinary : Mild ((cfg.take notification params).run (arrived s method)).1) :
    Finishes ((cfg.take notification params).run (arrived s method)).2 []
      (complaint? method ((cfg.take notification params).run (arrived s method)).1)
      ((cfg.serveNotification (.str method) params).run s) := by
  rw [cfg.run_serveNotification_of_lookup hmethod]
  generalize (cfg.take notification params).run _ = ended at hordinary ⊢
  rcases ended with ⟨outcome, t⟩
  cases outcome with
  | ok done => exact ⟨rfl, (List.append_nil _).symm⟩
  | error fault =>
      simp only [hordinary fault rfl, if_true]
      rw [run_bind, run_note]
      dsimp only
      rw [run_send]
      exact concludes_of_sending rfl (congrArg (· ++ _) (List.append_nil _).symm)

/-- What is sent in front of what finishes the work. -/
theorem Finishes.of_sent {s t : Session} {front more : List Outgoing} {last : Option Outgoing}
    {ended : Except Fault Unit × Session} (hfinishes : Finishes t more last ended)
    (hsent : t.sent = s.sent ++ front) : Finishes s (front ++ more) last ended := by
  cases last with
  | none => exact ⟨hfinishes.1, by rw [hfinishes.2, hsent, List.append_assoc]⟩
  | some message =>
      refine ⟨fun h => ?_, fun h => ?_⟩
      · obtain ⟨hok, hended⟩ := hfinishes.sent h
        exact ⟨hok, by rw [hended, hsent, List.append_assoc s.sent]⟩
      · obtain ⟨herror, hended⟩ := hfinishes.failed h
        exact ⟨herror, by rw [hended, hsent, List.append_assoc]⟩

/-- A message is served, and ends in one of the ways there are. -/
def Served (cfg : Config) (s : Session) (method id params : Json) (work : Serving Unit) : Prop :=
  ∃ front last, cfg.Ends s params method id front last ∧ Finishes s front last (work.run s)

section

variable {cfg : Config} (hhost : cfg.host.IsOrdinary)
include hhost

theorem serveRequest_served (s : Session) {method id : Json} (hmethod : method.isUsable = true)
    (hid : id ≠ .null) {shown : Text} (hshown : method.display? = some shown) (params : Json) :
    cfg.Served s method id params (cfg.serveRequest id method params) := by
  rcases lookUp_of_isUsable Request.methods hmethod with hnone | ⟨name, request, rfl, hlookup⟩
  · obtain ⟨t, -, ⟨hnot, -⟩ | ⟨found, hfound, hsent, hrun⟩⟩ :=
      cfg.run_serveRequest_unknown id hnone params s
    · exact nomatch hshown.symm.trans hnot
    · rw [← List.append_nil s.sent] at hsent
      exact ⟨[], _, .refused hid hnone hfound, concludes_of_sending hrun hsent⟩
  · have hordinary := ordinary_answer hhost request params (received s id name)
    obtain ⟨t, hrun, -, hsent⟩ := cfg.run_serveRequest_known id hlookup params s hordinary
    have hanswer := (cfg.answer_performs request params (received s id name)).2
    obtain ⟨told, htold, hnews⟩ :=
      cfg.tells_perform (received s id name) (Action.answer cfg.readers request params)
    rw [hanswer, htold] at hsent
    refine ⟨told, some _, ?_, concludes_of_sending hrun hsent⟩
    cases houtcome : ((cfg.answer request params).run (received s id name)).1 with
    | ok result => exact .answered hid hlookup hnews houtcome
    | error fault =>
        -- an error of the protocol keeps its code; any other fault is an internal error
        by_cases hrpc : ∃ code text data, fault = .rpc code text data
        · obtain ⟨code, text, data, rfl⟩ := hrpc
          exact .declined hid hlookup hnews houtcome
        · have hfault : ∀ code text data, fault ≠ .rpc code text data :=
            fun code text data heq => hrpc ⟨code, text, data, heq⟩
          have hreply : reply id (.error fault) =
              .failure id (-32603) (fault.kind ++ ": " ++ fault.message) .null := by
            cases fault with
            | rpc code text data => exact absurd rfl (hfault code text data)
            | _ => rfl
          rw [hreply]
          exact .failed hid hlookup hnews houtcome hfault

theorem serveNotification_served (s : Session) {method : Json} (hmethod : method.isUsable = true)
    (params : Json) :
    cfg.Served s method .null params (cfg.serveNotification method params) := by
  rcases lookUp_of_isUsable Notification.methods hmethod with
    hnone | ⟨name, notification, rfl, hlookup⟩
  · obtain ⟨t, hrun, hsent⟩ := cfg.run_serveNotification_unknown hnone params s
    rw [← List.append_nil s.sent] at hsent
    exact ⟨[], none, .unhandled hnone, by rw [hrun]; exact ⟨rfl, hsent⟩⟩
  · have hordinary := ordinary_take hhost notification params (arrived s name)
    have hfinishes := cfg.run_serveNotification_known hlookup params s hordinary
    obtain ⟨-, alerts, htaken, halerts⟩ := cfg.take_performs notification params (arrived s name)
    obtain ⟨told, htold, hnews⟩ :=
      cfg.tells_perform (arrived s name) (Action.take cfg.readers notification params)
    rw [htold, List.append_assoc] at htaken
    have hended := hfinishes.of_sent (s := s) htaken
    rw [List.append_nil] at hended
    refine ⟨told ++ alerts, _, ?_, hended⟩
    cases houtcome : ((cfg.take notification params).run (arrived s name)).1 with
    | ok done => exact .taken hlookup hnews halerts houtcome
    | error fault => exact .alerted hlookup hnews halerts houtcome

theorem handle_served (s : Session) (message : Json.Fields)
    (hmethod : ((Json.Fields.get? message "method").getD .null).isUsable = true)
    (hshown : ((Json.Fields.get? message "id").getD .null) = .null ∨
      ∃ shown, ((Json.Fields.get? message "method").getD .null).display? = some shown) :
    cfg.Served s ((Json.Fields.get? message "method").getD .null)
      ((Json.Fields.get? message "id").getD .null) (paramsOf message) (cfg.handle message) := by
  unfold handle
  generalize (Json.Fields.get? message "method").getD .null = method at hmethod hshown ⊢
  generalize (Json.Fields.get? message "id").getD .null = id at hshown ⊢
  dsimp only
  split
  next hnull =>
      rw [(Json.isNull_iff method).mp hnull]
      refine ⟨[], none, .ignored id, ?_⟩
      rw [run_noteShowing]
      exact ⟨rfl, (List.append_nil _).symm⟩
  next =>
      split
      next hid =>
          rw [(Json.isNull_iff id).mp hid]
          exact serveNotification_served hhost s hmethod _
      next hid =>
          have hnull : id ≠ .null := fun h => hid ((Json.isNull_iff id).mpr h)
          obtain ⟨shown, hshown⟩ := hshown.resolve_left hnull
          exact serveRequest_served hhost s hmethod hnull hshown _

end

/-- A method that cannot be looked up ends the server. -/
theorem handle_of_not_isUsable (cfg : Config) (s : Session) (message : Json.Fields)
    (hmethod : ((Json.Fields.get? message "method").getD .null).isUsable = false) :
    ((cfg.handle message).run s).1 =
      .error (.unusableMethod ((Json.Fields.get? message "method").getD .null)) := by
  unfold handle
  generalize (Json.Fields.get? message "method").getD .null = method at hmethod ⊢
  dsimp only
  split
  next hnull =>
      rw [(Json.isNull_iff method).mp hnull] at hmethod
      exact nomatch hmethod
  next =>
      have hlookup := lookUp_of_not_isUsable Notification.methods hmethod
      have hlookup' := lookUp_of_not_isUsable Request.methods hmethod
      split
      · simp only [serveNotification, run_bind, run_noteShowing, run_lift, hlookup]
      · simp only [serveRequest, run_bind, run_noteShowing, run_lift, hlookup']

/-- The method of a request that cannot be shown ends the server, and nothing is sent. -/
theorem handle_of_not_shown (cfg : Config) (s : Session) (message : Json.Fields)
    (hmethod : ((Json.Fields.get? message "method").getD .null).isUsable = true)
    (hid : (Json.Fields.get? message "id").getD .null ≠ .null)
    (hshown : ((Json.Fields.get? message "method").getD .null).display? = none) :
    ((cfg.handle message).run s).1 = .error .unwritable ∧
      ((cfg.handle message).run s).2.sent = s.sent := by
  unfold handle
  generalize (Json.Fields.get? message "method").getD .null = method at hmethod hshown ⊢
  generalize (Json.Fields.get? message "id").getD .null = id at hid ⊢
  dsimp only
  have hnull : method.isNull = false := by
    rw [Bool.eq_false_iff, ne_eq, Json.isNull_iff]
    rintro rfl
    exact nomatch hshown
  rw [hnull, if_neg Bool.false_ne_true, if_neg fun h => hid ((Json.isNull_iff id).mp h)]
  rcases lookUp_of_isUsable Request.methods hmethod with hnone | ⟨name, request, rfl, hlookup⟩
  · obtain ⟨t, -, ⟨-, hsent, hrun⟩ | ⟨found, hfound, -⟩⟩ :=
      cfg.run_serveRequest_unknown id hnone (paramsOf message) s
    · rw [hrun]
      exact ⟨rfl, hsent⟩
    · exact nomatch hshown.symm.trans hfound
  · exact nomatch hshown

/-- A host whose analyzer breaks down. -/
def brokenHost : Host where
  parse := fun _ _ _ => .error (.other "RuntimeError" "out of order")
  analyze := fun _ tree _ => .ok tree
  read := fun _ uri => .error (.other "LookupError" ("no such document: " ++ uri))

theorem isOrdinary_brokenHost : brokenHost.IsOrdinary :=
  ⟨fun _ _ _ => .error rfl, fun _ tree _ => .ok tree, fun _ _ => .error rfl⟩

end Config

end EditorBridge
