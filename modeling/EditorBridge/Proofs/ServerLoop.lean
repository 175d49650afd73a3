/-
A run of the server.  It reads one frame after another and serves what each of them holds,
up to the first notification to exit, or else up to the end of the stream; no frame behind
that is touched.  The code tells whether the server was asked to shut down.
-/
import EditorBridge.Proofs.Outcomes
import EditorBridge.Proofs.Reading
import EditorBridge.Proofs.Settings
import Mathlib.Data.Nat.Find

namespace EditorBridge

namespace Frame

/-- What the first reads of a stream come to. -/
def readings : Nat → List UInt8 → List Reading
  | 0, _ => []
  | reads + 1, octets => read octets :: readings reads (read octets).rest

/-- The object that a read gives, if there is something in it. -/
def Reading.message? (reading : Reading) : Option Json.Fields :=
  match reading.outcome with
  | .ok (some message) => if message.isEmpty then none else some message
  | _ => none

/-- The messages in the first frames of a stream. -/
def messages (reads : Nat) (octets : List UInt8) : List Json.Fields :=
  (readings reads octets).filterMap Reading.message?

theorem readings_succ (reads : Nat) (octets : List UInt8) :
    readings (reads + 1) octets = readings reads octets ++ [read (leftAfter reads octets)] := by
  induction reads generalizing octets with
  | zero => rfl
  | succ reads ih => exact congrArg (read octets :: ·) (ih (read octets).rest)

theorem messages_succ (reads : Nat) (octets : List UInt8) :
    messages (reads + 1) octets =
      messages reads octets ++ (read (leftAfter reads octets)).message?.toList := by
  rw [messages, readings_succ, List.filterMap_append]
  rfl

/-- What is among the messages of some reads is among those of more. -/
theorem any_messages_mono {octets : List UInt8} {reads more : Nat} (hle : reads ≤ more)
    {kind : Json.Fields → Bool} (hany : (messages reads octets).any kind = true) :
    (messages more octets).any kind = true := by
  induction hle with
  | refl => exact hany
  | step _ ih => rw [messages_succ, List.any_append, ih, Bool.true_or]

/-- Each read that gives an object takes at least one octet. -/
theorem length_leftAfter {octets : List UInt8} {reads : Nat}
    (hread : ∀ i < reads, ∃ fields, (read (leftAfter i octets)).outcome = .ok (some fields)) :
    (leftAfter reads octets).length + reads ≤ octets.length := by
  induction reads with
  | zero => exact Nat.le_refl _
  | succ reads ih =>
      have hbefore := ih fun i hi => hread i (Nat.lt_succ_of_lt hi)
      obtain ⟨fields, hfields⟩ := hread reads (Nat.lt_succ_self reads)
      have hless := length_rest_read hfields
      rw [leftAfter_succ]
      omega

/-- What stands in front of a stream is the frame of the message that is read from it, and
all behind this frame is left. -/
theorem hasBody_of_message? {octets : List UInt8} {message : Json.Fields}
    (hmessage : (read octets).message? = some message) :
    ∃ body, HasBody octets body (read octets).rest := by
  unfold Reading.message? at hmessage
  split at hmessage
  next fields houtcome =>
      split at hmessage
      next => cases hmessage
      next hempty =>
          have hsize : ¬Oversized octets := by
            intro hsize
            rw [read_of_oversized hsize] at houtcome
            cases houtcome
          have hconverts : Converts octets := converts_of_isOk (by rw [houtcome]; rfl)
          obtain ⟨given, hgiven, hgives⟩ := gives_read hsize hconverts
          rw [houtcome] at hgiven
          obtain rfl := Except.ok.inj hgiven
          generalize hrest : (read octets).rest = rest at hgives
          cases hgives with
          | bodiless => exact absurd rfl hempty
          | object hbody => exact ⟨_, hbody⟩
          | senseless => exact absurd rfl hempty
  next => cases hmessage

end Frame

namespace Config

open EditorBridge.Frame

/-- The session behind a read: what the log says of it is noted, and the object that it
gives is served, if there is something in it. -/
def behind (cfg : Config) (s : Session) (reading : Reading) : Session :=
  match reading.message? with
  | some message => cfg.after (s.logged reading.log) message
  | none => s.logged reading.log

/-- The session that a run begins with. -/
def opening (cfg : Config) : Session :=
  cfg.start.logged [⟨.info, serverName ++ " " ++ serverVersion ++ " started"⟩]

/-- The session behind the first reads of a stream. -/
def trail (cfg : Config) (s : Session) (input : List UInt8) (reads : Nat) : Session :=
  (readings reads input).foldl cfg.behind s

theorem trail_succ (cfg : Config) (s : Session) (input : List UInt8) (reads : Nat) :
    cfg.trail s input (reads + 1) =
      cfg.behind (cfg.trail s input reads) (read (leftAfter reads input)) := by
  rw [trail, readings_succ, List.foldl_append]
  rfl

/-- The flags of a session tell which messages were served. -/
theorem requested_trail (cfg : Config) (s : Session) (input : List UInt8) (reads : Nat) :
    (cfg.trail s input reads).shutdownRequested =
        (s.shutdownRequested || (messages reads input).any (isRequest "shutdown")) ∧
      (cfg.trail s input reads).exitRequested =
        (s.exitRequested || (messages reads input).any (isNotification "exit")) := by
  induction reads with
  | zero => exact ⟨(Bool.or_false _).symm, (Bool.or_false _).symm⟩
  | succ reads ih =>
      rw [trail_succ, messages_succ, behind, List.any_append, List.any_append, ← Bool.or_assoc,
        ← Bool.or_assoc, ← ih.1, ← ih.2]
      cases (read (leftAfter reads input)).message? with
      | none => exact ⟨(Bool.or_false _).symm, (Bool.or_false _).symm⟩
      | some message =>
          have hsettings := cfg.settings_after
            ((cfg.trail s input reads).logged (read (leftAfter reads input)).log) message
          have hshutdown := congrArg Settings.shutdownRequested hsettings
          have hexit := congrArg Settings.exitRequested hsettings
          simp only [Option.toList, List.any_cons, List.any_nil, Bool.or_false]
          exact ⟨hshutdown, hexit⟩

/-- A round of the loop goes from one session to the next. -/
theorem serve_behind (cfg : Config) {input : List UInt8} {s : Session} {fields : Json.Fields}
    (hexit : s.exitRequested = false) (hread : (read input).outcome = .ok (some fields))
    (hserve : ∀ message, (read input).message? = some message →
      ((cfg.handle message).run (s.logged (read input).log)).1 = .ok ()) :
    cfg.serve input s = cfg.serve (read input).rest (cfg.behind s (read input)) := by
  have hmessage : (read input).message? = if fields.isEmpty then none else some fields := by
    rw [Reading.message?, hread]
  rw [cfg.serve_eq input (by rw [hexit]; exact Bool.false_ne_true), hread, behind, hmessage]
  cases fields with
  | nil => rfl
  | cons field fields =>
      have hok := hserve _ hmessage
      simp only [List.isEmpty_cons, Bool.false_eq_true, if_false, after]
      generalize (cfg.handle (field :: fields)).run _ = ended at hok
      rcases ended with ⟨outcome, t⟩
      obtain rfl : outcome = .ok () := hok
      rfl

/-- A run goes on at a frame: it was not asked to exit, and there is an object to read. -/
def GoesOn (input : List UInt8) (reads : Nat) : Prop :=
  (messages reads input).any (isNotification "exit") = false ∧
    ∃ fields, (read (leftAfter reads input)).outcome = .ok (some fields)

/-- A run comes to a read: each read in front of it gave an object, and none of these
asks to exit. -/
def Reaches (input : List UInt8) (reads : Nat) : Prop :=
  (∀ i < reads, ∃ fields, (read (leftAfter i input)).outcome = .ok (some fields)) ∧
    (messages reads input).any (isNotification "exit") = false

/-- As long as a run goes on, it has come to the session behind what was read. -/
theorem serve_trail (cfg : Config) {input : List UInt8} {s : Session}
    (hexit : s.exitRequested = false) {reads : Nat} (hgoes : ∀ i < reads, GoesOn input i)
    (hserve : ∀ i < reads, ∀ message, (read (leftAfter i input)).message? = some message →
      ((cfg.handle message).run
        ((cfg.trail s input i).logged (read (leftAfter i input)).log)).1 = .ok ()) :
    cfg.serve input s = cfg.serve (leftAfter reads input) (cfg.trail s input reads) := by
  induction reads with
  | zero => rfl
  | succ reads ih =>
      obtain ⟨hnone, fields, hfields⟩ := hgoes reads (Nat.lt_succ_self reads)
      have hbefore := ih (fun i hi => hgoes i (Nat.lt_succ_of_lt hi))
        fun i hi => hserve i (Nat.lt_succ_of_lt hi)
      have hflag : (cfg.trail s input reads).exitRequested = false := by
        rw [(cfg.requested_trail s input reads).2, hexit, hnone, Bool.false_or]
      rw [hbefore, leftAfter_succ, trail_succ]
      exact cfg.serve_behind hflag hfields (hserve reads (Nat.lt_succ_self reads))

/-- Every stream has a frame at which a run no longer goes on. -/
theorem exists_not_goesOn (input : List UInt8) :
    ∃ reads, ¬GoesOn input reads ∧ ∀ i < reads, GoesOn input i := by
  classical
  have hsome : ∃ reads, ¬GoesOn input reads := by
    by_contra hall
    simp only [not_exists, not_not] at hall
    have hread : ∀ i < input.length + 1,
        ∃ fields, (read (leftAfter i input)).outcome = .ok (some fields) := fun i _ => (hall i).2
    have hlength := length_leftAfter hread
    omega
  exact ⟨Nat.find hsome, Nat.find_spec hsome, fun i hi => not_not.mp (Nat.find_min hsome hi)⟩

/-- The code of a run in which these messages were served: zero if there was a request to
shut down among them. -/
def codeOf (served : List Json.Fields) : Nat := if served.any (isRequest "shutdown") then 0 else 1

theorem exitCode_trail (cfg : Config) (input : List UInt8) (reads : Nat) :
    (cfg.trail cfg.opening input reads).exitCode = codeOf (messages reads input) := by
  rw [Session.exitCode, (cfg.requested_trail cfg.opening input reads).1]
  rfl

/-- How a run ends, and behind how many frames: behind that of the first notification to
exit, with all that stands behind this frame left, or where no further frame is read. -/
inductive Completes (cfg : Config) (input : List UInt8) : Nat → Run → Prop where
  | exited {before : Nat} {last : Json.Fields} {body : List UInt8}
      (hearlier : ∀ message ∈ messages before input, isNotification "exit" message = false)
      (hmessages : messages (before + 1) input = messages before input ++ [last])
      (hlast : isNotification "exit" last = true)
      (hframe : HasBody (leftAfter before input) body (leftAfter (before + 1) input)) :
      Completes cfg input (before + 1)
        ⟨.ok (codeOf (messages (before + 1) input)), leftAfter (before + 1) input,
          cfg.trail cfg.opening input (before + 1)⟩
  | closed {reads : Nat}
      (hall : ∀ message ∈ messages reads input, isNotification "exit" message = false)
      (hread : (read (leftAfter reads input)).outcome = .ok none) :
      Completes cfg input reads
        ⟨.ok (codeOf (messages reads input)), leftAfter (reads + 1) input,
          (cfg.trail cfg.opening input (reads + 1)).logged
            [⟨.info, "Input stream closed; exiting server"⟩]⟩

/-- A session that was asked to exit is at its end. -/
theorem serve_exited (cfg : Config) {input : List UInt8} {before : Nat}
    (hearlier : (messages before input).any (isNotification "exit") = false)
    (hexit : (messages (before + 1) input).any (isNotification "exit") = true) :
    cfg.Completes input (before + 1)
      (cfg.serve (leftAfter (before + 1) input) (cfg.trail cfg.opening input (before + 1))) := by
  have hflag : (cfg.trail cfg.opening input (before + 1)).exitRequested = true := by
    rw [(cfg.requested_trail cfg.opening input (before + 1)).2, hexit, Bool.or_true]
  have hmessages := messages_succ before input
  rw [serve, if_pos hflag, exitCode_trail]
  cases hmessage : (read (leftAfter before input)).message? with
  | none =>
      rw [hmessages, hmessage, List.any_append, hearlier] at hexit
      cases hexit
  | some last =>
      rw [hmessages, hmessage, List.any_append, hearlier] at hexit
      rw [hmessage] at hmessages
      obtain ⟨body, hbody⟩ := hasBody_of_message? hmessage
      rw [← leftAfter_succ] at hbody
      refine .exited ?_ hmessages ?_ hbody
      · simpa using hearlier
      · simpa using hexit

/-- When no read and no message that a run comes to raises a fault, the run ends: all objects
with something in them that the reads give are served in their order, up to the first
notification to exit or else up to the end of the stream.  Behind the frame of the
notification nothing is taken.  The code is zero when a request to shut down was served, and
else one. -/
theorem run_serves_frames_up_to_exit (cfg : Config) (input : List UInt8)
    (hread : ∀ reads, Reaches input reads →
      ∃ given, (read (leftAfter reads input)).outcome = .ok given)
    (hserve : ∀ reads message, Reaches input reads →
      (read (leftAfter reads input)).message? = some message →
      ((cfg.handle message).run ((cfg.trail cfg.opening input reads).logged
        (read (leftAfter reads input)).log)).1 = .ok ()) :
    ∃ reads ≤ input.length,
      (∀ i < reads, ∃ fields, (read (leftAfter i input)).outcome = .ok (some fields)) ∧
      cfg.Completes input reads (cfg.run input) := by
  obtain ⟨reads, hstop, hgoes⟩ := exists_not_goesOn input
  have hgiven : ∀ i < reads, ∃ fields, (read (leftAfter i input)).outcome = .ok (some fields) :=
    fun i hi => (hgoes i hi).2
  have hreaches : ∀ i < reads, Reaches input i :=
    fun i hi => ⟨fun j hj => hgiven j (Nat.lt_trans hj hi), (hgoes i hi).1⟩
  have hlength := length_leftAfter hgiven
  have hrun : cfg.run input =
      cfg.serve (leftAfter reads input) (cfg.trail cfg.opening input reads) :=
    cfg.serve_trail rfl hgoes fun i hi message => hserve i message (hreaches i hi)
  refine ⟨reads, by omega, hgiven, ?_⟩
  rw [hrun]
  cases hexit : (messages reads input).any (isNotification "exit") with
  | true =>
      cases reads with
      | zero => cases hexit
      | succ before => exact cfg.serve_exited (hgoes before (Nat.lt_succ_self before)).1 hexit
  | false =>
      have hflag : (cfg.trail cfg.opening input reads).exitRequested = false := by
        rw [(cfg.requested_trail cfg.opening input reads).2, hexit]
        rfl
      obtain ⟨given, hoffered⟩ := hread reads ⟨hgiven, hexit⟩
      cases given with
      | some fields => exact absurd ⟨hexit, fields, hoffered⟩ hstop
      | none =>
          have hmessage : (read (leftAfter reads input)).message? = none := by
            rw [Reading.message?, hoffered]
          have hnext : cfg.trail cfg.opening input (reads + 1) =
              (cfg.trail cfg.opening input reads).logged (read (leftAfter reads input)).log := by
            rw [trail_succ, behind, hmessage]
          rw [cfg.serve_eq _ (by rw [hflag]; exact Bool.false_ne_true), hoffered, exitCode_trail]
          rw [← hnext, ← leftAfter_succ]
          exact .closed (by simpa using hexit) hoffered

/-- An empty object, a request to shut down, a notification to exit, and the start of a
frame behind it. -/
def exitingStream : List UInt8 :=
  Text.Utf8.encode ("Content-Length: 2\r\n\r\n\x7b\x7d" ++
    "Content-Length: 28\r\n\r\n\x7b\"id\":1,\"method\":\"shutdown\"\x7d" ++
    "Content-Length: 17\r\n\r\n\x7b\"method\":\"exit\"\x7dContent-Length: 2\n\n").toList

theorem exitingStream_serves_frames_up_to_exit :
    let cfg : Config := { host := brokenHost }
    (cfg.run exitingStream).outcome.toOption = some 0 ∧
      (cfg.run exitingStream).rest = Text.Utf8.encode "Content-Length: 2\n\n".toList ∧
      ∃ reads ≤ exitingStream.length,
        (∀ i < reads, ∃ fields,
          (read (leftAfter i exitingStream)).outcome = .ok (some fields)) ∧
        cfg.Completes exitingStream reads (cfg.run exitingStream) := by
  intro cfg
  have hread : (∀ reads < 3,
        (read (leftAfter reads exitingStream)).outcome.toOption.isSome = true) ∧
      (messages 3 exitingStream).any (isNotification "exit") = true := by
    decide +kernel
  have hserve : (∀ reads < 3, (read (leftAfter reads exitingStream)).message?.all (fun message =>
        ((cfg.handle message).run ((cfg.trail cfg.opening exitingStream reads).logged
          (read (leftAfter reads exitingStream)).log)).1.toOption == some ()) = true) ∧
      (cfg.run exitingStream).outcome.toOption = some 0 ∧
      (cfg.run exitingStream).rest = Text.Utf8.encode "Content-Length: 2\n\n".toList := by
    decide +kernel
  have hless : ∀ reads, Reaches exitingStream reads → reads < 3 := by
    intro reads hreaches
    by_contra hmore
    have hexit := any_messages_mono (Nat.le_of_not_lt hmore) hread.2
    rw [hreaches.2] at hexit
    cases hexit
  refine ⟨hserve.2.1, hserve.2.2, cfg.run_serves_frames_up_to_exit exitingStream ?_ ?_⟩
  · intro reads hreaches
    obtain ⟨given, hgiven⟩ := Option.isSome_iff_exists.mp (hread.1 reads (hless reads hreaches))
    exact ⟨given, eq_ok_of_toOption hgiven⟩
  · intro reads message hreaches hmessage
    have hok := hserve.1 reads (hless reads hreaches)
    rw [hmessage, Option.all_some, beq_iff_eq] at hok
    exact eq_ok_of_toOption hok

end Config

end EditorBridge
