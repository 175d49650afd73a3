/-
A session with an editor: the documents at hand, where names of other files are
looked for, and all that was asked of the host, sent to the editor and logged.
-/
import EditorBridge.Analysis
import EditorBridge.Message.Outgoing
import EditorBridge.Message.Params

namespace EditorBridge

/-- A document at hand: its text, and its tree when the analysis gave one. -/
structure Document where
  uri : Text
  text : Text
  tree : Option Tree

/-- What stays the same in a session. -/
structure Config where
  host : Host
  readers : Params.Readers := Params.lenient
  rootOverride : Option Path := none
  publishes : Bool := true

/-- The state of a session. -/
structure Session where
  root : Option Path := none
  documents : Table Document := .empty
  shutdownRequested : Bool := false
  exitRequested : Bool := false
  calls : List Call := []
  sent : List Outgoing := []
  log : List Log.Entry := []

/-- Work in a session, which a fault may end early. -/
abbrev Serving := ExceptT Fault (StateM Session)

/-- The session that a configuration begins with. -/
def Config.start (cfg : Config) : Session := { root := cfg.rootOverride }

namespace Serving

/-- The result of a step that may fail. -/
def lift {α : Type} : Except Fault α → Serving α
  | .ok value => pure value
  | .error fault => throw fault

/-- Do some work and tell how it ended. -/
def attempt {α : Type} (work : Serving α) : Serving (Except Fault α) :=
  ExceptT.mk do return .ok (← work.run)

def note (level : Log.Level) (message : Text) : Serving Unit :=
  modify fun s => { s with log := s.log ++ [⟨level, message⟩] }

/-- A note that shows some values; it is lost when one of them cannot be written. -/
def noteShowing (values : List Json) (level : Log.Level) (message : Text) : Serving Unit :=
  if Json.allWritable values then note level message else pure ()

/-- Send a message, which fails when it cannot be written. -/
def send (message : Outgoing) : Serving Unit :=
  match message.octets with
  | .error cause => throw (.ofWrite cause)
  | .ok _ =>
      modify fun s => { s with sent := s.sent ++ [message], log := s.log ++ [message.entry] }

theorem run_bind {α β : Type} (work : Serving α) (next : α → Serving β) (s : Session) :
    (work >>= next).run s =
      match work.run s with
      | (.ok value, s') => (next value).run s'
      | (.error fault, s') => (.error fault, s') := by
  change ExceptT.bindCont next (work.run s).1 (work.run s).2 = _
  rcases work.run s with ⟨outcome, s'⟩
  cases outcome <;> rfl

@[simp] theorem run_note (level : Log.Level) (message : Text) (s : Session) :
    (note level message).run s = (.ok (), { s with log := s.log ++ [⟨level, message⟩] }) := rfl

@[simp] theorem run_attempt {α : Type} (work : Serving α) (s : Session) :
    (attempt work).run s = (.ok (work.run s).1, (work.run s).2) := rfl

@[simp] theorem run_lift {α : Type} (outcome : Except Fault α) (s : Session) :
    (lift outcome).run s = (outcome, s) := by
  cases outcome <;> rfl

end Serving

end EditorBridge
