/-
What a piece of work may do to a session.  Quiet work asks the host and writes to
the log, and leaves all else alone; work is quiet when all its parts are.
-/
import EditorBridge.Proofs.WritableMessages
import EditorBridge.Server

namespace EditorBridge

/-- Two sessions that differ at most in the calls made and in the log. -/
structure Session.Alike (s t : Session) : Prop where
  documents : t.documents = s.documents
  root : t.root = s.root
  shutdownRequested : t.shutdownRequested = s.shutdownRequested
  exitRequested : t.exitRequested = s.exitRequested
  sent : t.sent = s.sent

namespace Session.Alike

@[refl] theorem refl (s : Session) : s.Alike s := ⟨rfl, rfl, rfl, rfl, rfl⟩

theorem trans {s t u : Session} (hst : s.Alike t) (htu : t.Alike u) : s.Alike u :=
  ⟨htu.documents.trans hst.documents, htu.root.trans hst.root,
    htu.shutdownRequested.trans hst.shutdownRequested,
    htu.exitRequested.trans hst.exitRequested, htu.sent.trans hst.sent⟩

end Session.Alike

namespace Serving

variable {α β : Type}

@[simp] theorem run_pure (value : α) (s : Session) :
    (pure value : Serving α).run s = (.ok value, s) := rfl

@[simp] theorem run_get (s : Session) : (get : Serving Session).run s = (.ok s, s) := rfl

@[simp] theorem run_set (t s : Session) : (set t : Serving PUnit).run s = (.ok (), t) := rfl

@[simp] theorem run_modify (change : Session → Session) (s : Session) :
    (modify change : Serving PUnit).run s = (.ok (), change s) := rfl

/-- A message that is sent is written and noted; one that cannot be written leaves no trace. -/
theorem run_send (message : Outgoing) (s : Session) :
    (send message).run s = (message.sending, { s with
      sent := s.sent ++ message.written
      log := s.log ++ message.written.map Outgoing.entry }) := by
  rw [send, Outgoing.sending, Outgoing.written]
  cases message.octets with
  | error cause =>
      simp only [List.append_nil, List.map_nil]
      rfl
  | ok octets => rfl

/-- A piece of work sends some messages and ends with the sending of a last one: it returns
when the last one can be written, and it fails, and sends no more, when it cannot. -/
structure Concludes (s : Session) (front : List Outgoing) (last : Outgoing)
    (ended : Except Fault Unit × Session) : Prop where
  sent : last.IsWritable → ended.1 = .ok () ∧ ended.2.sent = s.sent ++ front ++ [last]
  failed : ¬last.IsWritable →
    (∃ cause, ended.1 = .error (.ofWrite cause)) ∧ ended.2.sent = s.sent ++ front

theorem concludes_of_sending {s t : Session} {front : List Outgoing} {last : Outgoing}
    {ended : Except Fault Unit × Session} (hended : ended = (last.sending, t))
    (hsent : t.sent = s.sent ++ front ++ last.written) : Concludes s front last ended := by
  subst hended
  constructor
  · intro hwritable
    rw [Outgoing.written_of_isWritable hwritable] at hsent
    exact ⟨Outgoing.sending_eq_ok_iff.mpr hwritable, hsent⟩
  · intro hwritable
    obtain ⟨cause, hsending, hwritten⟩ := Outgoing.exists_sending_eq_error hwritable
    rw [hwritten, List.append_nil] at hsent
    exact ⟨⟨cause, hsending⟩, hsent⟩

theorem Concludes.eq_of_isWritable {s : Session} {front : List Outgoing} {last : Outgoing}
    {ended : Except Fault Unit × Session} (h : Concludes s front last ended)
    (hwritable : last.IsWritable) : ended = (.ok (), ended.2) :=
  Prod.ext (h.sent hwritable).1 rfl

theorem Concludes.sent_eq {s : Session} {front : List Outgoing} {last : Outgoing}
    {ended : Except Fault Unit × Session} (h : Concludes s front last ended) :
    ended.2.sent = s.sent ++ front ++ [last].filter fun message => message.IsWritable := by
  by_cases hwritable : last.IsWritable
  · rw [List.filter_cons_of_pos (by simpa using hwritable)]
    exact (h.sent hwritable).2
  · rw [List.filter_cons_of_neg (by simpa using hwritable)]
    exact (h.failed hwritable).2.trans (List.append_nil _).symm

theorem Concludes.returns_iff {s : Session} {front : List Outgoing} {last : Outgoing}
    {ended : Except Fault Unit × Session} (h : Concludes s front last ended) :
    ended.1 = .ok () ↔ last.IsWritable := by
  refine ⟨fun hok => ?_, fun hwritable => (h.sent hwritable).1⟩
  refine Decidable.byContradiction fun hwritable => ?_
  obtain ⟨⟨cause, herror⟩, -⟩ := h.failed hwritable
  exact nomatch hok.symm.trans herror

/-- Work that asks the host and writes to the log, and does nothing else. -/
def Quiet (work : Serving α) : Prop := ∀ s : Session, s.Alike (work.run s).2

/-- What quiet work does behind other work does not show. -/
theorem alike_run_bind (work : Serving α) {next : α → Serving β}
    (hnext : ∀ value, (next value).Quiet) (s : Session) :
    (work.run s).2.Alike ((work >>= next).run s).2 := by
  rw [run_bind]
  rcases work.run s with ⟨outcome, t⟩
  cases outcome with
  | error fault => exact .refl t
  | ok value => exact hnext value t

theorem quiet_pure (value : α) : (pure value : Serving α).Quiet := fun s => .refl s

theorem quiet_throw (fault : Fault) : (throw fault : Serving α).Quiet := fun s => .refl s

theorem quiet_note (level : Log.Level) (message : Text) : (note level message).Quiet :=
  fun _ => ⟨rfl, rfl, rfl, rfl, rfl⟩

theorem quiet_lift (outcome : Except Fault α) : (lift outcome).Quiet := by
  intro s
  rw [run_lift]

theorem Quiet.bind {work : Serving α} {next : α → Serving β} (hwork : work.Quiet)
    (hnext : ∀ value, (next value).Quiet) : (work >>= next).Quiet :=
  fun s => (hwork s).trans (alike_run_bind work hnext s)

end Serving

end EditorBridge
