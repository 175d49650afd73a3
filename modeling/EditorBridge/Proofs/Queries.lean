/-
Queries do not show.  However a query about a document ends, the session behind it is the
one behind looking the document up; the trial run of a completion leaves no trace.  While
the document is at hand, any number of requests about it leave the session as it is, and
each of them is sent its response and nothing else.
-/
import EditorBridge.Proofs.Isolation
import EditorBridge.Proofs.Settings
import Mathlib.Data.List.Forall2

namespace EditorBridge

theorem Session.Alike.symm {s t : Session} (h : s.Alike t) : t.Alike s :=
  ⟨h.documents.symm, h.root.symm, h.shutdownRequested.symm, h.exitRequested.symm, h.sent.symm⟩

/-- A frame is the response to a request: it has its identifier, and a result or an error. -/
def Outgoing.IsResponseTo (message : Json.Fields) (frame : Outgoing) : Prop :=
  frame.field? "id" = Json.Fields.get? message "id" ∧ frame.OneOutcome

namespace Config

open Serving Outgoing

/-- A request about a document is a request with one of the methods for documents. -/
theorem exists_of_asksAbout {uri : Text} {message : Json.Fields}
    (hasks : asksAbout uri message = true) :
    ∃ method id, Json.Fields.get? message "method" = some (.str method) ∧
      Json.Fields.get? message "id" = some id ∧ id.isNull = false ∧
      method ∈ documentMethods ∧ Params.namedUri? (paramsOf message) = some uri := by
  rw [asksAbout, isAbout, Bool.and_eq_true] at hasks
  obtain ⟨habout, hid⟩ := hasks
  split at habout
  next method hmethod =>
      simp only [Bool.and_eq_true, List.contains_iff_mem, beq_iff_eq] at habout
      cases hget : Json.Fields.get? message "id" with
      | none => rw [hget] at hid; cases hid
      | some id =>
          rw [hget] at hid
          exact ⟨method, id, hmethod, rfl, by simpa using hid, habout.1, habout.2⟩
  next => cases habout

theorem isAbout_unique {uri other : Text} {message : Json.Fields}
    (huri : isAbout uri message = true) (hother : isAbout other message = true) : uri = other := by
  unfold isAbout at huri hother
  split at huri
  next method hmethod =>
      rw [hmethod] at hother
      simp only [Bool.and_eq_true, beq_iff_eq] at huri hother
      exact Option.some.inj (huri.2.symm.trans hother.2)
  next => cases huri

section

variable (cfg : Config) {s : Session} {uri : Text} {document : Document}
  (hdocument : s.documents.get? uri = some document)
include hdocument

/-- To look up a document that is at hand does nothing. -/
theorem perform_asksAbout (hreaders : cfg.readers.TakeNamed) {message : Json.Fields}
    (hasks : asksAbout uri message = true) :
    cfg.perform s (Action.ofMessage cfg.readers message) = s := by
  rw [asksAbout, Bool.and_eq_true, Bool.not_eq_true'] at hasks
  obtain ⟨habout, hid⟩ := hasks
  by_cases hidle : Action.ofMessage cfg.readers message = .idle
  · rw [hidle, perform]
  · have haction := (Action.asks_iff cfg.readers message _).mpr ⟨rfl, hidle⟩
    -- a request asks for a document at most to look it up
    have hvisit : ∃ other, Action.ofMessage cfg.readers message = .visit other := by
      generalize Action.ofMessage cfg.readers message = action at haction
      cases haction with
      | opened hmessage => exact absurd (isNotification_iff.mp hmessage).2 (by rw [hid]; decide)
      | changed hmessage => exact absurd (isNotification_iff.mp hmessage).2 (by rw [hid]; decide)
      | closed hmessage => exact absurd (isNotification_iff.mp hmessage).2 (by rw [hid]; decide)
      | _ => exact ⟨_, rfl⟩
    obtain ⟨other, hvisit⟩ := hvisit
    rw [hvisit] at haction ⊢
    obtain rfl := isAbout_unique habout (Action.isAbout_of_asks hreaders haction rfl)
    rw [perform, visited, hdocument]

/-- A request about a document that is at hand is sent its response and nothing else, unless
an interrupt ends the server. -/
theorem concludes_asksAbout (hreaders : cfg.readers.TakeNamed) {message : Json.Fields}
    (hasks : asksAbout uri message = true)
    (hserved : ∀ fault, ((cfg.handle message).run s).1 = .error fault → fault.isOrdinary = true) :
    ∃ response, IsResponseTo message response ∧
      Concludes s [] response ((cfg.handle message).run s) := by
  have hperform := cfg.perform_asksAbout hdocument hreaders hasks
  obtain ⟨method, id, hmethod, hid, hnull, -⟩ := exists_of_asksAbout hasks
  have hrequest : isRequest method message = true :=
    isRequest_iff.mpr ⟨hmethod, by rw [hid]; exact hnull⟩
  have hhandle : cfg.handle message = cfg.serveRequest id (.str method) (paramsOf message) := by
    rw [cfg.handle_of_method hmethod, hid, Option.getD_some, hnull]
    rfl
  rw [hhandle] at hserved ⊢
  cases hlookup : Request.methods.lookup method with
  | none =>
      obtain ⟨shown, hconcludes⟩ := cfg.serveRequest_refuses s id hlookup (paramsOf message)
      exact ⟨refusal id shown, ⟨hid.symm, rfl⟩, hconcludes⟩
  | some request =>
      have hordinary : ∀ fault,
          ((cfg.answer request (paramsOf message)).run (received s id method)).1 = .error fault →
            fault.isOrdinary = true := by
        intro fault hfault
        by_contra hinterrupt
        rw [Bool.not_eq_true] at hinterrupt
        rw [cfg.run_serveRequest_interrupted id hlookup _ s hinterrupt hfault] at hserved
        exact Bool.false_ne_true (hinterrupt.symm.trans (hserved fault rfl))
      obtain ⟨t, hrun, -, hsent⟩ := cfg.run_serveRequest_known id hlookup _ s hordinary
      have hanswered :=
        (cfg.answer_performs request (paramsOf message) (received s id method)).2
      -- the arrival that is noted first makes no difference to what the request does
      have hreceived : (cfg.perform (received s id method)
          (Action.ofMessage cfg.readers message)).sent = s.sent ++ [] := by
        rw [received, (cfg.perform_logged s _ _).sent, hperform, List.append_nil]
      rw [← Action.ofRequest_of_mem (mem_of_lookup hlookup), ← ofMessage_of_isRequest hrequest,
        hreceived] at hanswered
      rw [hanswered] at hsent
      exact ⟨_, ⟨(field?_id_reply _ _).trans hid.symm, oneOutcome_reply _ _⟩,
        concludes_of_sending hrun hsent⟩

/-- One request about a document that is at hand changes nothing. -/
theorem after_asksAbout (hreaders : cfg.readers.TakeNamed) {message : Json.Fields}
    (hasks : asksAbout uri message = true) :
    (cfg.after s message).documents = s.documents ∧
      (cfg.after s message).settings = s.settings := by
  constructor
  · rw [after, (cfg.handle_performs message s).1, cfg.perform_asksAbout hdocument hreaders hasks]
  · obtain ⟨method, id, hmethod, hid, hnull, hmem, -⟩ := exists_of_asksAbout hasks
    have hrequest : isRequest method message = true :=
      isRequest_iff.mpr ⟨hmethod, by rw [hid]; exact hnull⟩
    have hother : ∀ name, name ∉ documentMethods → (method == name) = false := by
      intro name hname
      rw [beq_eq_false_iff_ne]
      rintro rfl
      exact hname hmem
    rw [settings_after, startRoot?, (isRequest_of_isRequest hrequest _).1,
      (isRequest_of_isRequest hrequest _).1, (isRequest_of_isRequest hrequest _).2,
      hother _ (by simp [documentMethods]), hother _ (by simp [documentMethods]), Bool.or_false,
      Bool.or_false, if_neg Bool.false_ne_true, Option.none_or, ite_self]
    rfl

/-- Requests about a document that is at hand, one behind the other: each is sent its response
if the response can be written, and only then it returns. -/
theorem foldl_asksAbout (hreaders : cfg.readers.TakeNamed) {queries : List Json.Fields}
    (hasks : ∀ message ∈ queries, asksAbout uri message = true) :
    (queries.foldl cfg.after s).documents = s.documents ∧
      (queries.foldl cfg.after s).settings = s.settings ∧
      ((∀ fault, .error fault ∈ cfg.endings s queries → fault.isOrdinary = true) →
        ∃ responses, List.Forall₂ IsResponseTo queries responses ∧
          (queries.foldl cfg.after s).sent =
            s.sent ++ responses.filter (fun response => response.IsWritable) ∧
          List.Forall₂ (fun response ending => ending = .ok () ↔ response.IsWritable) responses
            (cfg.endings s queries)) := by
  induction queries generalizing s with
  | nil => exact ⟨rfl, rfl, fun _ => ⟨[], .nil, (List.append_nil _).symm, .nil⟩⟩
  | cons message rest ih =>
      obtain ⟨hmessage, hrest⟩ := List.forall_mem_cons.mp hasks
      obtain ⟨hdocuments, hsettings⟩ := cfg.after_asksAbout hdocument hreaders hmessage
      have hkept : (cfg.after s message).documents.get? uri = some document := by
        rw [hdocuments]
        exact hdocument
      obtain ⟨hdocuments', hsettings', hsent⟩ := ih hkept hrest
      refine ⟨hdocuments'.trans hdocuments, hsettings'.trans hsettings, fun hordinary => ?_⟩
      obtain ⟨response, hresponse, hconcludes⟩ := cfg.concludes_asksAbout hdocument hreaders
        hmessage fun fault hfault => hordinary fault (hfault ▸ List.mem_cons_self)
      obtain ⟨responses, hresponses, hrestSent, hendings⟩ :=
        hsent fun fault hfault => hordinary fault (List.mem_cons_of_mem _ hfault)
      refine ⟨response :: responses, .cons hresponse hresponses, ?_, .cons ?_ hendings⟩
      · rw [List.foldl_cons, hrestSent, after, hconcludes.sent_eq, List.append_nil,
          List.append_assoc, ← List.filter_append]
        rfl
      · exact hconcludes.returns_iff

end

/-- With a host that raises only ordinary faults, no request about a document is ended by an
interrupt. -/
theorem isOrdinary_of_asksAbout {cfg : Config} (hhost : cfg.host.IsOrdinary) {uri : Text}
    {s : Session} {queries : List Json.Fields}
    (hasks : ∀ message ∈ queries, asksAbout uri message = true) :
    ∀ fault, .error fault ∈ cfg.endings s queries → fault.isOrdinary = true := by
  induction queries generalizing s with
  | nil => exact fun fault hfault => absurd hfault List.not_mem_nil
  | cons message rest ih =>
      obtain ⟨hmessage, hrest⟩ := List.forall_mem_cons.mp hasks
      obtain ⟨method, id, hmethod, -⟩ := exists_of_asksAbout hmessage
      obtain ⟨front, last, -, hfinishes⟩ :=
        handle_served hhost s message (by rw [hmethod]; rfl) (Or.inr ⟨_, by rw [hmethod]; rfl⟩)
      intro fault hfault
      rcases List.mem_cons.mp hfault with hfirst | hlater
      · cases last with
        | none => exact nomatch hfirst.trans hfinishes.1
        | some last =>
            by_cases hwritable : last.IsWritable
            · exact nomatch hfirst.trans (hfinishes.sent hwritable).1
            · obtain ⟨⟨cause, herror⟩, -⟩ := hfinishes.failed hwritable
              rw [Except.error.inj (hfirst.trans herror)]
              exact Fault.isOrdinary_ofWrite cause
      · exact ih hrest fault hlater

/-- A host whose analyzer breaks down at each text but the first. -/
def onceHost : Host where
  parse := fun calls _ _ =>
    match calls with
    | [] => .ok none
    | _ :: _ => .error (.other "RuntimeError" "out of order")
  analyze := fun _ tree _ => .ok tree
  read := fun _ uri => .error (.noFile uri)

theorem isOrdinary_onceHost : onceHost.IsOrdinary := by
  refine ⟨fun calls text file => ?_, fun _ tree _ => .ok tree, fun _ _ => .error rfl⟩
  cases calls with
  | nil => exact .ok none
  | cons call rest => exact .error rfl

/-- A query with an identifier, at a place of a document. -/
def queryFor (id : Json) (method : Text) : Json.Fields :=
  [("id", id), ("method", .str method), ("params", .obj [
    ("textDocument", .obj [("uri", .str "file:///a")]),
    ("position", .obj [("line", .int 0), ("character", .int 3)])])]

end Config

end EditorBridge
