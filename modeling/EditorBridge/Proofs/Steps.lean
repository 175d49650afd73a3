/-
What serving is made of.  The work on a message is done in small steps: documents are
kept, messages sent and entries logged, a file is read, or a text is analyzed as that of
the document that the message is about.  What each step keeps, the whole work keeps; only
to start, to shut down and to exit takes something else.
-/
import EditorBridge.Proofs.Messages
import Mathlib.Logic.Relation

namespace EditorBridge

namespace Config

/-- One step of the work on a message about a document. -/
inductive Step (cfg : Config) (about : Option Text) : Session → Session → Prop where
  | noted (s : Session) (documents : Table Document) (sent : List Outgoing)
      (log : List Log.Entry) : Step cfg about s { s with documents, sent, log }
  | read (s : Session) (other : Text) :
      Step cfg about s { s with calls := s.calls ++ [.read other] }
  | examined (s : Session) {uri : Text} (huri : about = some uri) (text : Text) :
      Step cfg about s { s with
        calls := s.calls ++ (cfg.host.examine s.root s.calls uri text).calls
        log := s.log ++ (cfg.host.examine s.root s.calls uri text).log }

/-- Any number of steps. -/
def Steps (cfg : Config) (about : Option Text) : Session → Session → Prop :=
  Relation.ReflTransGen (cfg.Step about)

end Config

namespace Serving

variable {α β : Type} {cfg : Config} {about : Option Text}

/-- Work that is done in steps. -/
def Stepwise (cfg : Config) (about : Option Text) (work : Serving α) : Prop :=
  ∀ s, cfg.Steps about s (work.run s).2

theorem stepwise_pure (value : α) : (pure value : Serving α).Stepwise cfg about :=
  fun _ => .refl

theorem stepwise_throw (fault : Fault) : (throw fault : Serving α).Stepwise cfg about :=
  fun _ => .refl

theorem stepwise_note (level : Log.Level) (message : Text) :
    (note level message).Stepwise cfg about :=
  fun s => .single (.noted s s.documents s.sent _)

theorem stepwise_send (message : Outgoing) : (send message).Stepwise cfg about := by
  intro s
  rw [run_send]
  exact .single (.noted s s.documents _ _)

theorem stepwise_lift (outcome : Except Fault α) : (lift outcome).Stepwise cfg about := by
  intro s
  rw [run_lift]
  exact .refl

theorem Stepwise.bind {work : Serving α} {next : α → Serving β}
    (hwork : work.Stepwise cfg about) (hnext : ∀ value, (next value).Stepwise cfg about) :
    (work >>= next).Stepwise cfg about := by
  intro s
  have hstart := hwork s
  rw [run_bind]
  generalize work.run s = ended at hstart
  rcases ended with ⟨outcome, t⟩
  cases outcome with
  | error fault => exact hstart
  | ok value => exact hstart.trans (hnext value t)

theorem Stepwise.attempt {work : Serving α} (hwork : work.Stepwise cfg about) :
    (attempt work).Stepwise cfg about := hwork

end Serving

namespace Config

open Serving

variable {cfg : Config} {about : Option Text} {uri : Text}

theorem stepwise_publish (uri : Text) (diagnostics : List Diagnostic) :
    (cfg.publish uri diagnostics).Stepwise cfg about := by
  unfold publish
  split
  · exact stepwise_send _
  · exact stepwise_pure ()

theorem stepwise_close (uri : Text) : (close uri).Stepwise cfg about :=
  fun s => .single (.noted s _ s.sent s.log)

theorem stepwise_readText (other : Text) : (cfg.readText other).Stepwise cfg about := by
  intro s
  rw [run_readText]
  exact .single (.read s other)

section

variable (huri : about = some uri)
include huri

theorem stepwise_examine (text : Text) : (cfg.examine uri text).Stepwise cfg about := by
  intro s
  rw [run_examine]
  exact .single (.examined s huri text)

theorem stepwise_refresh (text : Text) : (cfg.refresh uri text).Stepwise cfg about := by
  apply (stepwise_examine huri text).bind
  intro analysis
  apply Stepwise.bind
  · exact fun s => .single (.noted s _ s.sent s.log)
  · intro _
    apply (stepwise_note _ _).bind
    intro _
    exact (stepwise_publish _ _).bind fun _ => stepwise_pure _

theorem stepwise_document : (cfg.document uri).Stepwise cfg about := by
  intro s
  cases hdocument : s.documents.get? uri with
  | some document =>
      rw [cfg.run_document_of_some hdocument]
      exact .refl
  | none =>
      have hload : (do
          note .debug ("Document " ++ uri ++ " not cached; reading from disk")
          let text ← cfg.readText uri
          cfg.refresh uri text : Serving Document).Stepwise cfg about := by
        apply (stepwise_note _ _).bind
        intro _
        exact (stepwise_readText uri).bind fun text => stepwise_refresh huri text
      have hsteps := hload s
      rw [Config.document, run_bind, run_get]
      simp only [hdocument]
      exact hsteps

theorem stepwise_complete (line character : Int) :
    (cfg.complete uri line character).Stepwise cfg about := by
  apply (stepwise_document huri).bind
  intro document
  apply (stepwise_lift _).bind
  intro offset
  apply Stepwise.bind
  · apply (stepwise_examine huri _).bind
    intro analysis
    exact (stepwise_note _ _).bind fun _ => stepwise_pure _
  · intro tree
    cases tree with
    | none => exact stepwise_pure []
    | some tree =>
        simp only
        split
        · exact stepwise_pure []
        · exact (stepwise_note _ _).bind fun _ => stepwise_pure _

theorem stepwise_completion (position : Position) :
    (cfg.completion ⟨uri, position⟩).Stepwise cfg about := by
  apply (stepwise_complete huri _ _).attempt.bind
  intro outcome
  split
  · exact stepwise_pure _
  · exact (stepwise_note _ _).bind fun _ => stepwise_pure _
  · exact stepwise_throw _

theorem stepwise_find (position : Position) : (cfg.find ⟨uri, position⟩).Stepwise cfg about := by
  apply (stepwise_document huri).bind
  intro document
  split
  · exact stepwise_pure _
  · split
    · exact (stepwise_note _ _).bind fun _ => stepwise_pure _
    · exact stepwise_pure _

theorem stepwise_hover (position : Position) :
    (cfg.hover ⟨uri, position⟩).Stepwise cfg about := by
  apply (stepwise_find huri position).bind
  intro found
  split
  · exact stepwise_pure _
  · exact stepwise_lift _

omit huri in
theorem stepwise_links (document : Document) (tree : Tree) (location : Location) :
    (cfg.links document tree location).Stepwise cfg about := by
  intro s
  simp only [links]
  split
  · simp only [run_bind, run_note, run_get]
    have hnoted : cfg.Steps about s { s with
        log := s.log ++ [⟨.debug, "No definition lookup for " ++
          (tree.graph.node location.node).tag ++ " nodes"⟩] } :=
      .single (.noted s s.documents s.sent _)
    split
    · simp only [run_bind, run_set, run_lift]
      exact hnoted.tail (.read _ _)
    · exact hnoted.trans (stepwise_lift _ _)
  · simp only [run_bind, run_get]
    split
    · simp only [run_bind, run_set, run_lift]
      exact .single (.read _ _)
    · exact stepwise_lift _ s

theorem stepwise_definition (position : Position) :
    (cfg.definition ⟨uri, position⟩).Stepwise cfg about := by
  apply (stepwise_find huri position).bind
  intro found
  split
  · exact stepwise_pure _
  · exact stepwise_links _ _ _

theorem stepwise_outline : (cfg.outline uri).Stepwise cfg about := by
  apply (stepwise_document huri).bind
  intro document
  split
  · exact stepwise_pure _
  · exact stepwise_lift _

end

/-- A query about a place is done in steps when those about the places of the document are. -/
theorem stepwise_placed {α : Type} {shape : Params.Shape} {params : Json}
    {work : Params.PositionParams → Serving α}
    (hwork : ∀ place, about = some place.uri → (work place).Stepwise cfg about)
    (habout : about = (Action.placed cfg.readers shape params).uri?) :
    (ofParams shape (cfg.readers.place shape params) >>= work).Stepwise cfg about := by
  rw [Action.placed] at habout
  cases hread : cfg.readers.place shape params with
  | error reason => exact stepwise_throw _
  | ok place =>
      rw [hread] at habout
      exact hwork place habout

/-- The work on a query about a document is done in steps about it. -/
theorem stepwise_answer {request : Request} (hquery : request.isQuery = true) (params : Json) :
    (cfg.answer request params).Stepwise cfg (Action.answer cfg.readers request params).uri? := by
  cases request with
  | start => cases hquery
  | shutdown => cases hquery
  | hover =>
      refine stepwise_placed (fun place huri => ?_) rfl
      exact (stepwise_hover huri place.position).bind fun _ => stepwise_pure _
  | definition =>
      refine stepwise_placed (fun place huri => ?_) rfl
      exact (stepwise_definition huri place.position).bind fun _ => stepwise_pure _
  | outline =>
      rw [answer, Action.answer, Action.outlined]
      cases cfg.readers.document Params.symbolShape params with
      | error reason => exact stepwise_throw _
      | ok uri => exact (stepwise_outline rfl).bind fun _ => stepwise_pure _
  | completion =>
      refine stepwise_placed (fun place huri => ?_) rfl
      exact (stepwise_completion huri place.position).bind fun _ => stepwise_pure _

/-- The work on a notification about a document is done in steps about it. -/
theorem stepwise_take {notification : Notification} (hexit : notification ≠ .exit)
    (params : Json) :
    (cfg.take notification params).Stepwise cfg
      (Action.take cfg.readers notification params).uri? := by
  cases notification with
  | started => exact stepwise_pure ()
  | exit => exact absurd rfl hexit
  | opened =>
      rw [take, Action.take, Action.opened]
      cases cfg.readers.opened params with
      | error reason => exact stepwise_throw _
      | ok item =>
          apply (stepwise_refresh rfl item.text).bind
          intro document
          split
          · exact (stepwise_note _ _).bind fun _ => stepwise_send _
          · exact stepwise_pure ()
  | changed =>
      rw [take, Action.take, Action.changed]
      cases cfg.readers.changed params with
      | error reason => exact stepwise_throw _
      | ok change =>
          intro s
          rw [run_ofParams_bind]
          dsimp only
          cases change.texts.getLast? with
          | none => exact stepwise_pure () s
          | some text => exact (stepwise_refresh rfl text).bind (fun _ => stepwise_pure ()) s
  | closed =>
      rw [take, Action.take, Action.closed]
      cases cfg.readers.document Params.closeShape params with
      | error reason => exact stepwise_throw _
      | ok uri => exact (stepwise_close uri).bind fun _ => stepwise_publish uri []

end Config

end EditorBridge
