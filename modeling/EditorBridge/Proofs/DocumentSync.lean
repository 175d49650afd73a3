/-
What notifications about documents do.  What one of them changes is settled before anything is
written: either the document is replaced or removed and the editor is told one list of
diagnostics about it, or a fault came up, and the user is shown one error while the documents
and all that is set stay as they were.  One case lies between the two: a change is made but
cannot be told, for a lone surrogate, and then the user is shown an error, too.
-/
import EditorBridge.Proofs.Publication
import EditorBridge.Proofs.ReportPlaces
import EditorBridge.Proofs.Settings

namespace EditorBridge

/-- What a notification makes of the documents. -/
inductive Change where
  | replace (uri : Text) (entry : Entry)
  | remove (uri : Text)
  | leave

namespace Change

/-- The documents behind a change. -/
def documents (before : Table Document) : Change → Table Document
  | .replace uri entry => before.insert uri (entry.document uri)
  | .remove uri => before.erase uri
  | .leave => before

/-- What the editor is sent for a change: one list of diagnostics for the document, those of
the new analysis, and an error when a document was opened that has no tree. -/
def frames (notification : Notification) : Change → List Outgoing
  | .replace uri entry =>
      .diagnostics uri entry.analysis.diagnostics ::
        if notification = .opened ∧ entry.analysis.tree.isNone then
          [.alert (serverName ++ ": failed to load document " ++ uri)]
        else []
  | .remove uri => [.diagnostics uri []]
  | .leave => []

/-- No lone surrogate stands in what the editor is to be told of a change. -/
def IsWhole : Change → Prop
  | .replace uri entry => Diagnostic.AreWhole uri entry.analysis.diagnostics
  | .remove uri => Diagnostic.AreWhole uri []
  | .leave => True

end Change

/-- Whether a notification is about a document. -/
def Notification.isSync : Notification → Bool
  | .opened | .changed | .closed => true
  | .started | .exit => false

/-- What a notification is to make of the documents, by its parameters and by what the host
answers at the moment, or the fault that comes up on the way. -/
def Host.intended (host : Host) (readers : Params.Readers) (moment : Moment) (params : Json) :
    Notification → Except Fault Change
  | .opened => do
      let item ← (readers.opened params).mapError (Params.fault Params.openShape)
      let entry ← host.study moment item.uri item.text
      .ok (.replace item.uri entry)
  | .changed => do
      let change ← (readers.changed params).mapError (Params.fault Params.changeShape)
      match change.texts.getLast? with
      | none => .ok .leave
      | some text => (host.study moment change.uri text).map (.replace change.uri)
  | .closed => ((readers.document Params.closeShape params).mapError
      (Params.fault Params.closeShape)).map .remove
  | .started | .exit => .ok .leave

/-- What is put in place of a document is a text with what its analysis gives. -/
theorem Host.gives_of_intended {host : Host} {readers : Params.Readers} {moment : Moment}
    {params : Json} {notification : Notification} {uri : Text} {entry : Entry}
    (hintended : host.intended readers moment params notification = .ok (.replace uri entry)) :
    host.Gives moment uri entry.text entry.analysis := by
  have hstudied : ∃ text, host.study moment uri text = .ok entry := by
    cases notification with
    | opened =>
        obtain ⟨item, -, hrest⟩ := bind_eq_ok_iff.mp hintended
        obtain ⟨found, hstudy, hfound⟩ := bind_eq_ok_iff.mp hrest
        obtain ⟨rfl, rfl⟩ := Change.replace.inj (Except.ok.inj hfound)
        exact ⟨_, hstudy⟩
    | changed =>
        obtain ⟨change, -, hrest⟩ := bind_eq_ok_iff.mp hintended
        cases hlast : change.texts.getLast? with
        | none =>
            rw [hlast] at hrest
            exact nomatch hrest
        | some text =>
            rw [hlast] at hrest
            obtain ⟨found, hstudy, hfound⟩ := map_eq_ok_iff.mp hrest
            obtain ⟨rfl, rfl⟩ := Change.replace.inj hfound
            exact ⟨_, hstudy⟩
    | closed =>
        obtain ⟨other, -, hother⟩ := map_eq_ok_iff.mp hintended
        exact nomatch hother
    | started => exact nomatch hintended
    | exit => exact nomatch hintended
  obtain ⟨text, hstudy⟩ := hstudied
  obtain ⟨rfl, hgives⟩ := (host.study_eq_ok_iff moment uri text entry).mp hstudy
  exact hgives

namespace Config

open Serving

/-- Work that makes the change it is meant to make and tells it, or fails because the change
cannot be told, or ends with the fault that came up and has written nothing. -/
inductive Makes (notification : Notification) (s : Session) :
    Except Fault Change → Except Fault Unit × Session → Prop where
  | made {change : Change} {t : Session} (hwhole : change.IsWhole)
      (hdocuments : t.documents = change.documents s.documents)
      (hsent : t.sent = s.sent ++ change.frames notification) :
      Makes notification s (.ok change) (.ok (), t)
  | untold {change : Change} {cause : Outgoing.WriteError} {t : Session}
      (hlone : ¬change.IsWhole) (hdocuments : t.documents = change.documents s.documents)
      (hsent : t.sent = s.sent) :
      Makes notification s (.ok change) (.error (.ofWrite cause), t)
  | refused {fault : Fault} {t : Session} (hdocuments : t.documents = s.documents)
      (hsent : t.sent = s.sent) : Makes notification s (.error fault) (.error fault, t)

/-- The error about a document without a tree can be sent when its diagnostics could be. -/
theorem run_unloaded {uri : Text} (huri : Text.isWhole uri.points = true) (s : Session) :
    ∃ t, (do
        note .warning ("Failed to analyze " ++ uri)
        send (.alert (serverName ++ ": failed to load document " ++ uri)) : Serving Unit).run s =
          (.ok (), t) ∧
      t.documents = s.documents ∧
      t.sent = s.sent ++ [.alert (serverName ++ ": failed to load document " ++ uri)] := by
  have halert :
      (Outgoing.alert (serverName ++ ": failed to load document " ++ uri)).IsWritable := by
    rw [Outgoing.isWritable_alert_iff]
    simp [huri]
  rw [run_bind, run_note]
  dsimp only
  rw [run_send, Outgoing.sending_eq_ok_iff.mpr halert, Outgoing.written_of_isWritable halert]
  exact ⟨_, rfl, rfl, rfl⟩

section

variable {cfg : Config} (hpublishes : cfg.publishes = true)
include hpublishes

/-- The editor is told one list, unless a lone surrogate is in it or in the URI. -/
theorem told_cases (uri : Text) {list : List Diagnostic}
    (hlist : ∀ diagnostic ∈ list, diagnostic.range.IsNameable) :
    Diagnostic.AreWhole uri list ∧ cfg.telling uri list = .ok () ∧
        cfg.told uri list = [.diagnostics uri list] ∨
      ¬Diagnostic.AreWhole uri list ∧
        ∃ cause, cfg.telling uri list = .error (.ofWrite cause) ∧ cfg.told uri list = [] := by
  rcases cfg.tell_cases hlist with ⟨hwhole, htelling, htold⟩ | ⟨⟨-, hlone⟩, huntold⟩
  · rw [if_pos hpublishes] at htold
    exact Or.inl ⟨hwhole hpublishes, htelling, htold⟩
  · exact Or.inr ⟨hlone, huntold⟩

/-- A text that is studied well is kept, and told if that can be; any other changes nothing. -/
theorem run_refresh_tells (uri text : Text) (s : Session) :
    (∃ entry t, cfg.host.study s.moment uri text = .ok entry ∧
      t.documents = s.documents.insert uri (entry.document uri) ∧
      (Diagnostic.AreWhole uri entry.analysis.diagnostics ∧
          (cfg.refresh uri text).run s = (.ok (entry.document uri), t) ∧
          t.sent = s.sent ++ [.diagnostics uri entry.analysis.diagnostics] ∨
        ¬Diagnostic.AreWhole uri entry.analysis.diagnostics ∧
          ∃ cause, (cfg.refresh uri text).run s = (.error (.ofWrite cause), t) ∧
            t.sent = s.sent)) ∨
    ∃ fault t, cfg.host.study s.moment uri text = .error fault ∧
      (cfg.refresh uri text).run s = (.error fault, t) ∧
      t.documents = s.documents ∧ t.sent = s.sent := by
  rcases cfg.run_refresh_cases uri text s with
    ⟨entry, t, hstudy, hrun, hdocuments, hsent⟩ | hrefused
  · obtain ⟨-, hgives⟩ := (cfg.host.study_eq_ok_iff s.moment uri text entry).mp hstudy
    refine Or.inl ⟨entry, t, hstudy, hdocuments, ?_⟩
    rw [announced] at hrun
    rcases told_cases hpublishes uri hgives.nameable with
      ⟨hwhole, htelling, htold⟩ | ⟨hlone, cause, htelling, htold⟩
    · rw [htelling] at hrun
      rw [htold] at hsent
      exact Or.inl ⟨hwhole, hrun, hsent⟩
    · rw [htelling] at hrun
      rw [htold, List.append_nil] at hsent
      exact Or.inr ⟨hlone, cause, hrun, hsent⟩
  · exact Or.inr hrefused

/-- Work that keeps a text makes the change, when what it does behind that sends what else there
is to be sent. -/
theorem makes_refresh {notification : Notification} {uri text : Text}
    {next : Document → Serving Unit} (s : Session)
    (hnext : ∀ (entry : Entry) (t : Session), Text.isWhole uri.points = true →
      ∃ u behind, (next (entry.document uri)).run t = (.ok (), u) ∧
        u.documents = t.documents ∧ u.sent = t.sent ++ behind ∧
        (Change.replace uri entry).frames notification =
          .diagnostics uri entry.analysis.diagnostics :: behind) :
    Makes notification s ((cfg.host.study s.moment uri text).map (.replace uri))
      ((cfg.refresh uri text >>= next).run s) := by
  rw [run_bind]
  rcases run_refresh_tells hpublishes uri text s with
    ⟨entry, t, hstudy, hdocuments, ⟨hwhole, hrun, hsent⟩ | ⟨hlone, cause, hrun, hsent⟩⟩ |
    ⟨fault, t, hstudy, hrun, hdocuments, hsent⟩
  · obtain ⟨u, behind, hran, hsame, hmore, hframes⟩ := hnext entry t hwhole.1
    rw [hrun, hstudy]
    dsimp only
    rw [hran]
    refine .made hwhole (hsame.trans hdocuments) ?_
    rw [hmore, hsent, hframes, List.append_assoc]
    rfl
  · rw [hrun, hstudy]
    exact .untold hlone hdocuments hsent
  · rw [hrun, hstudy]
    exact .refused hdocuments hsent

/-- A notification about a document is taken as a whole, or its change cannot be told, or it is
not taken at all. -/
theorem take_makes {notification : Notification} (hsync : notification.isSync = true)
    (params : Json) (s : Session) :
    Makes notification s (cfg.host.intended cfg.readers s.moment params notification)
      ((cfg.take notification params).run s) := by
  cases notification with
  | opened =>
      rw [take, Host.intended]
      cases cfg.readers.opened params with
      | error reason => exact .refused rfl rfl
      | ok item =>
          rw [run_ofParams_bind]
          simp only [Except.mapError, ok_bind, bind_ok]
          refine makes_refresh hpublishes s fun entry t hwhole => ?_
          dsimp only [Entry.document]
          cases htree : entry.analysis.tree with
          | none =>
              -- the error is sent behind the list
              obtain ⟨u, hshown, hsame, halert⟩ := run_unloaded hwhole t
              refine ⟨u, _, hshown, hsame, halert, ?_⟩
              simp only [Change.frames, htree, Option.isNone_none, and_self, if_true]
          | some tree =>
              refine ⟨t, [], rfl, rfl, (List.append_nil _).symm, ?_⟩
              simp only [Change.frames, htree, Option.isNone_some, Bool.false_eq_true, and_false,
                if_false]
  | changed =>
      rw [take, Host.intended]
      cases cfg.readers.changed params with
      | error reason => exact .refused rfl rfl
      | ok change =>
          rw [run_ofParams_bind]
          simp only [Except.mapError, ok_bind]
          cases change.texts.getLast? with
          | none => exact .made trivial rfl (List.append_nil _).symm
          | some text =>
              exact makes_refresh hpublishes s fun entry t _ =>
                ⟨t, [], rfl, rfl, (List.append_nil _).symm, rfl⟩
  | closed =>
      rw [take, Host.intended]
      cases cfg.readers.document Params.closeShape params with
      | error reason => exact .refused rfl rfl
      | ok uri =>
          rw [run_ofParams_bind]
          simp only [close, run_bind, run_get, run_modify, run_pure, run_publish]
          rcases told_cases hpublishes uri (List.forall_mem_nil _) with
            ⟨hwhole, htelling, htold⟩ | ⟨hlone, cause, htelling, htold⟩
          · rw [htelling, htold]
            exact .made hwhole rfl rfl
          · rw [htelling, htold]
            exact .untold hlone rfl (List.append_nil _)
  | started => cases hsync
  | exit => cases hsync

end

/-- A notification about a document sets nothing. -/
theorem settings_after_sync {method : Text} {notification : Notification}
    {message : Json.Fields} (hmethod : Notification.methods.lookup method = some notification)
    (hsync : notification.isSync = true) (hmessage : isNotification method message = true)
    (cfg : Config) (s : Session) : (cfg.after s message).settings = s.settings := by
  have hexit : (method == "exit") = false := by
    rw [beq_eq_false_iff_ne]
    rintro rfl
    cases hmethod
    cases hsync
  rw [settings_after, startRoot?, (isRequest_of_isNotification hmessage _).1,
    (isRequest_of_isNotification hmessage _).1, (isRequest_of_isNotification hmessage _).2, hexit,
    if_neg Bool.false_ne_true, Option.none_or, ite_self, Bool.or_false, Bool.or_false]
  rfl

/-- The error that is shown when a fault ends the work on a notification. -/
def complaint (method : Text) (fault : Fault) : Outgoing :=
  .alert (serverName ++ ": " ++ method ++ " failed: " ++ fault.message)

theorem isWritable_complaint_iff {method : Text} {notification : Notification}
    (hmethod : Notification.methods.lookup method = some notification) (fault : Fault) :
    (complaint method fault).IsWritable ↔ Text.isWhole fault.message.points = true := by
  have hmethods : ∀ entry ∈ Notification.methods, Text.isWhole entry.1.points = true := by decide
  have hwhole : Text.isWhole method.points = true := hmethods _ (mem_of_lookup hmethod)
  rw [complaint, Outgoing.isWritable_alert_iff]
  simp [hwhole]

/-- What is reported about a message that cannot be written can be written. -/
theorem isWhole_ofWrite (cause : Outgoing.WriteError) :
    Text.isWhole (Fault.ofWrite cause).message.points = true := by
  cases cause with
  | unwritable => exact Text.isWhole_ofString _
  | encoding cause => exact Text.isWhole_ofString _

theorem run_handle_of_lookup (cfg : Config) {method : Text} {notification : Notification}
    (hmethod : Notification.methods.lookup method = some notification) {message : Json.Fields}
    (hmessage : isNotification method message = true) (s : Session) :
    (cfg.handle message).run s =
      (match ((cfg.take notification (paramsOf message)).run (arrived s method)).1 with
        | .ok () => pure ()
        | .error fault =>
            if fault.isOrdinary then do
              note .error ("Error handling " ++ method)
              send (complaint method fault)
            else throw fault).run
        ((cfg.take notification (paramsOf message)).run (arrived s method)).2 := by
  obtain ⟨hget, hid⟩ := isNotification_iff.mp hmessage
  rw [cfg.handle_of_method hget, if_pos hid, cfg.run_serveNotification_of_lookup hmethod]
  rfl

/-- How the work on a notification ends when that of taking it has failed: with an error shown to
the user, if that can be written and the fault is ordinary. -/
theorem concludes_of_fault (cfg : Config) {method : Text} {notification : Notification}
    (hmethod : Notification.methods.lookup method = some notification) {message : Json.Fields}
    (hmessage : isNotification method message = true) {s t : Session} {fault : Fault}
    (htaken : (cfg.take notification (paramsOf message)).run (arrived s method) =
      (.error fault, t)) (hsent : t.sent = s.sent) :
    ((cfg.handle message).run s).2.documents = t.documents ∧
      (fault.isOrdinary = true →
        Concludes s [] (complaint method fault) ((cfg.handle message).run s)) ∧
      (fault.isOrdinary = false → (cfg.handle message).run s = (.error fault, t)) := by
  rw [cfg.run_handle_of_lookup hmethod hmessage, htaken]
  dsimp only
  cases hordinary : fault.isOrdinary with
  | false => exact ⟨rfl, fun h => (nomatch h), fun _ => rfl⟩
  | true =>
      rw [if_pos rfl, run_bind, run_note]
      dsimp only
      rw [run_send]
      refine ⟨rfl, fun _ => concludes_of_sending rfl ?_, fun h => nomatch h⟩
      rw [hsent, List.append_nil]

end Config

end EditorBridge
