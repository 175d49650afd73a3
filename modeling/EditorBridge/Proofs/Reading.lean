/-
What a read may come to.  Whatever octets a stream holds, a read gives the object of the
frame in front, passes the frame over, or comes to the end of the stream; there is one
frame that it fails at, which tells a length that no body can have.  A run of the server
ends with a fault only at such a frame or where a message that was read ends with it.
-/
import EditorBridge.Proofs.Framing
import EditorBridge.Server

namespace EditorBridge

namespace Frame

/-- The frame in front of a stream tells a length that no body can have. -/
def Oversized (octets : List UInt8) : Prop :=
  ∃ lines rest, headers? octets = some (lines, rest) ∧ maxLength < bodyLength lines

/-- The frame in front of a stream has a body, and these octets are left behind it. -/
def HasBody (octets body left : List UInt8) : Prop :=
  ∃ lines, headers? octets = some (lines, body ++ left) ∧ 0 < bodyLength lines ∧
    (body.length : Int) = bodyLength lines

/-- No numeral in the body of the frame in front is too long to be converted. -/
def Converts (octets : List UInt8) : Prop :=
  ∀ body left text tooLong, HasBody octets body left → Text.Utf8.encode text = body →
    Json.parse text ≠ .error (.numeral tooLong)

/-- What a read gives and what it leaves of the stream: nothing where the stream ends
inside a frame, the object that a body is the text of, and the empty object for a frame
without a body or with a body that is the text of no object. -/
inductive Gives (octets : List UInt8) : Option Json.Fields → List UInt8 → Prop where
  | unfinished (hheaders : headers? octets = none) : Gives octets none []
  | cutShort {lines : List (List Char)} {rest : List UInt8}
      (hheaders : headers? octets = some (lines, rest))
      (hshort : (rest.length : Int) < bodyLength lines) : Gives octets none []
  | bodiless {lines : List (List Char)} {rest : List UInt8}
      (hheaders : headers? octets = some (lines, rest)) (hlength : bodyLength lines ≤ 0) :
      Gives octets (some []) rest
  | object {body left : List UInt8} {text : List Char} {fields : Json.Fields}
      (hbody : HasBody octets body left) (hencode : Text.Utf8.encode text = body)
      (hparse : Json.parse text = .ok (.obj fields)) : Gives octets (some fields) left
  | senseless {body left : List UInt8} (hbody : HasBody octets body left)
      (hnone : ∀ text fields, Text.Utf8.encode text = body →
        Json.parse text ≠ .ok (.obj fields)) : Gives octets (some []) left

theorem read_of_oversized {octets : List UInt8} (hsize : Oversized octets) :
    (read octets).outcome = .error .frameTooLong := by
  obtain ⟨lines, rest, hheaders, hlength⟩ := hsize
  have hpositive : ¬bodyLength lines ≤ 0 := by
    have hmax : 0 ≤ maxLength := by decide
    omega
  simp only [read, hheaders, if_neg hpositive, if_pos hlength]

/-- A read gives what the frame in front says, when its length is one that a body can
have. -/
theorem gives_read {octets : List UInt8} (hsize : ¬Oversized octets)
    (hconverts : Converts octets) :
    ∃ message, (read octets).outcome = .ok message ∧ Gives octets message (read octets).rest := by
  rcases hheaders : headers? octets with _ | ⟨lines, rest⟩
  · simp only [read, hheaders]
    exact ⟨none, rfl, .unfinished hheaders⟩
  · have hmax : ¬maxLength < bodyLength lines := fun hlength =>
      hsize ⟨lines, rest, hheaders, hlength⟩
    by_cases hlength : bodyLength lines ≤ 0
    · simp only [read, hheaders, if_pos hlength]
      exact ⟨some [], rfl, .bodiless hheaders hlength⟩
    · by_cases hshort : (rest.take (bodyLength lines).toNat).length < (bodyLength lines).toNat
      · simp only [read, hheaders, if_neg hlength, if_neg hmax, if_pos hshort]
        rw [List.length_take] at hshort
        exact ⟨none, rfl, .cutShort hheaders (by omega)⟩
      · simp only [read, hheaders, if_neg hlength, if_neg hmax, if_neg hshort, rest_readBody]
        have hbody : HasBody octets (rest.take (bodyLength lines).toNat)
            (rest.drop (bodyLength lines).toNat) := by
          rw [List.length_take] at hshort
          refine ⟨lines, by rw [List.take_append_drop]; exact hheaders, Int.not_le.mp hlength, ?_⟩
          rw [List.length_take]
          omega
        rcases outcome_readBody_cases (rest.take (bodyLength lines).toNat)
            (rest.drop (bodyLength lines).toNat) with
          ⟨text, fields, hencode, hparse, houtcome⟩ | ⟨text, tooLong, hencode, hparse⟩ |
          ⟨hnone, houtcome⟩
        · exact ⟨some fields, houtcome, .object hbody hencode hparse⟩
        · exact absurd hparse (hconverts _ _ text tooLong hbody hencode)
        · exact ⟨some [], houtcome, .senseless hbody hnone⟩

/-- The next read goes on where the last one stopped. -/
theorem leftAfter_succ (reads : Nat) (octets : List UInt8) :
    leftAfter (reads + 1) octets = (read (leftAfter reads octets)).rest := by
  induction reads generalizing octets with
  | zero => rfl
  | succ reads ih => exact ih (read octets).rest

theorem leftAfter_nil (reads : Nat) : leftAfter reads [] = [] := by
  induction reads with
  | zero => rfl
  | succ reads ih => rw [leftAfter, read_nil, ih]

/-- A body that is not there holds no numeral. -/
theorem converts_of_cutShort {octets rest : List UInt8} {lines : List (List Char)}
    (hheaders : headers? octets = some (lines, rest))
    (hshort : (rest.length : Int) < bodyLength lines) : Converts octets := by
  rintro body left text tooLong ⟨others, hothers, -, hlength⟩
  obtain ⟨rfl, rfl⟩ := Prod.mk.inj (Option.some.inj (hheaders.symm.trans hothers))
  rw [List.length_append] at hshort
  omega

/-- The frame in front converts when it is read without a fault. -/
theorem converts_of_isOk {octets : List UInt8} (hread : (read octets).outcome.isOk = true) :
    Converts octets := by
  rintro body left text tooLong ⟨lines, hheaders, hpositive, hlength⟩ hencode hparse
  have htoNat : (bodyLength lines).toNat = body.length := by omega
  have htake : (body ++ left).take (bodyLength lines).toNat = body := by
    rw [htoNat, List.take_left]
  have hbody : (readBody body ((body ++ left).drop (bodyLength lines).toNat)).outcome.isOk =
      false := by
    rw [readBody, Text.Utf8.decode_eq_ok_iff.mpr hencode]
    simp only [hparse]
    rfl
  rw [read, hheaders] at hread
  simp only [if_neg (Int.not_le.mpr hpositive), htake] at hread
  split at hread
  · cases hread
  · rw [if_neg (by omega), hbody] at hread
    cases hread

/-- A stream of two frames converts when both of them do. -/
theorem converts_leftAfter {octets : List UInt8} (hfirst : Converts octets)
    (hsecond : Converts (read octets).rest) (hend : (read (read octets).rest).rest = [])
    (reads : Nat) : Converts (leftAfter reads octets) := by
  rcases reads with _ | _ | reads
  · exact hfirst
  · exact hsecond
  · rw [leftAfter, leftAfter, hend, leftAfter_nil]
    exact converts_of_isOk (by rw [read_nil]; rfl)

end Frame

namespace Config

open EditorBridge.Frame

/-- One round of a run: a message is read and served, and the run goes on behind it. -/
theorem serve_eq (cfg : Config) (input : List UInt8) {s : Session}
    (hexit : ¬s.exitRequested = true) :
    cfg.serve input s =
      match (read input).outcome with
      | .error fault => ⟨.error fault, (read input).rest, s.logged (read input).log⟩
      | .ok none =>
          ⟨.ok s.exitCode, (read input).rest, (s.logged (read input).log).logged
            [⟨.info, "Input stream closed; exiting server"⟩]⟩
      | .ok (some message) =>
          if message.isEmpty then cfg.serve (read input).rest (s.logged (read input).log)
          else
            match (cfg.handle message).run (s.logged (read input).log) with
            | (.error fault, t) => ⟨.error fault, (read input).rest, t⟩
            | (.ok (), t) => cfg.serve (read input).rest t := by
  rw [serve, if_neg hexit]
  dsimp only
  split
  next fault hread => exact hread ▸ rfl
  next hread => exact hread ▸ rfl
  next message hread => exact hread ▸ rfl

/-- A run that ends with a fault has come to a frame that cannot be read, or to a message
that ended with it.  The induction follows the messages that are served. -/
theorem serve_error {cfg : Config} {input : List UInt8} {s : Session} {fault : Fault}
    (hserve : (cfg.serve input s).outcome = .error fault) :
    (∃ reads, (read (leftAfter reads input)).outcome = .error fault) ∨
      ∃ reads message t, (read (leftAfter reads input)).outcome = .ok (some message) ∧
        ((cfg.handle message).run t).1 = .error fault := by
  induction input, s using Config.serve.induct cfg with
  | case1 input s hexit =>
      rw [serve, if_pos hexit] at hserve
      exact nomatch hserve
  | case2 input s hexit cause hread =>
      rw [cfg.serve_eq input hexit, hread] at hserve
      exact Or.inl ⟨0, hread.trans (congrArg Except.error (Except.error.inj hserve))⟩
  | case3 input s hexit hread =>
      rw [cfg.serve_eq input hexit, hread] at hserve
      exact nomatch hserve
  | case4 input s hexit reading logged message hread hempty ih =>
      rw [cfg.serve_eq input hexit, hread] at hserve
      simp only [hempty, if_true] at hserve
      rcases ih hserve with ⟨reads, hfault⟩ | ⟨reads, later, t, hlater, hfault⟩
      · exact Or.inl ⟨reads + 1, hfault⟩
      · exact Or.inr ⟨reads + 1, later, t, hlater, hfault⟩
  | case5 input s hexit reading logged message hread hempty cause t hhandle =>
      have hrun : (cfg.handle message).run (s.logged (read input).log) = (.error cause, t) :=
        hhandle
      rw [cfg.serve_eq input hexit, hread] at hserve
      simp only [hempty, Bool.false_eq_true, if_false, hrun] at hserve
      obtain rfl := Except.error.inj hserve
      exact Or.inr ⟨0, message, s.logged (read input).log, hread, by rw [hrun]⟩
  | case6 input s hexit reading logged message hread hempty t hhandle ih =>
      have hrun : (cfg.handle message).run (s.logged (read input).log) = (.ok (), t) := hhandle
      rw [cfg.serve_eq input hexit, hread] at hserve
      simp only [hempty, Bool.false_eq_true, if_false, hrun] at hserve
      rcases ih hserve with ⟨reads, hfault⟩ | ⟨reads, later, u, hlater, hfault⟩
      · exact Or.inl ⟨reads + 1, hfault⟩
      · exact Or.inr ⟨reads + 1, later, u, hlater, hfault⟩

/-- Whatever a stream holds, each read gives what the frame in front says, and it fails
exactly at a frame that tells a length no body can have.  A run of the server gives a code,
or ends at such a frame, or ends where the message of a read ends it. -/
theorem reading_fails_only_when_oversized {input : List UInt8}
    (hconverts : ∀ reads, Converts (leftAfter reads input)) :
    (∀ reads, let left := leftAfter reads input
      ((read left).outcome = .error .frameTooLong ↔ Oversized left) ∧
      (Oversized left ∨ ∃ message, (read left).outcome = .ok message ∧
        Gives left message (leftAfter (reads + 1) input))) ∧
    ∀ cfg : Config,
      (∃ code, (cfg.run input).outcome = .ok code) ∨
      ((cfg.run input).outcome = .error .frameTooLong ∧
        ∃ reads, Oversized (leftAfter reads input)) ∨
      ∃ fault reads message t, (cfg.run input).outcome = .error fault ∧
        (read (leftAfter reads input)).outcome = .ok (some message) ∧
        ((cfg.handle message).run t).1 = .error fault := by
  have hread : ∀ reads, Oversized (leftAfter reads input) ∨
      ∃ message, (read (leftAfter reads input)).outcome = .ok message ∧
        Gives (leftAfter reads input) message (leftAfter (reads + 1) input) := by
    intro reads
    by_cases hsize : Oversized (leftAfter reads input)
    · exact Or.inl hsize
    · rw [leftAfter_succ]
      exact Or.inr (gives_read hsize (hconverts reads))
  have hfails : ∀ reads fault, (read (leftAfter reads input)).outcome = .error fault →
      fault = .frameTooLong ∧ Oversized (leftAfter reads input) := by
    intro reads fault hfault
    rcases hread reads with hsize | ⟨message, hmessage, -⟩
    · rw [read_of_oversized hsize] at hfault
      exact ⟨(Except.error.inj hfault).symm, hsize⟩
    · rw [hmessage] at hfault
      exact nomatch hfault
  refine ⟨fun reads => ⟨⟨fun hfault => (hfails reads _ hfault).2, read_of_oversized⟩,
    hread reads⟩, fun cfg => ?_⟩
  rcases hrun : (cfg.run input).outcome with fault | code
  · rcases serve_error hrun with ⟨reads, hfault⟩ | ⟨reads, message, t, hmessage, hfault⟩
    · obtain ⟨rfl, hsize⟩ := hfails reads fault hfault
      exact Or.inr (Or.inl ⟨rfl, reads, hsize⟩)
    · exact Or.inr (Or.inr ⟨fault, reads, message, t, rfl, hmessage, hfault⟩)
  · exact Or.inl ⟨code, rfl⟩

/-- A frame without a length, and then one whose body is no UTF-8. -/
def garbledStream : List UInt8 :=
  Text.Utf8.encode "Hello\r\n\r\nContent-Length: 1\n\n".toList ++ [255]

theorem reading_fails_only_when_oversized_garbled :
    (∀ reads, Converts (leftAfter reads garbledStream)) ∧
    (∀ reads, let left := leftAfter reads garbledStream
      ((read left).outcome = .error .frameTooLong ↔ Oversized left) ∧
      (Oversized left ∨ ∃ message, (read left).outcome = .ok message ∧
        Gives left message (leftAfter (reads + 1) garbledStream))) ∧
    ∀ cfg : Config,
      (∃ code, (cfg.run garbledStream).outcome = .ok code) ∨
      ((cfg.run garbledStream).outcome = .error .frameTooLong ∧
        ∃ reads, Oversized (leftAfter reads garbledStream)) ∨
      ∃ fault reads message t, (cfg.run garbledStream).outcome = .error fault ∧
        (read (leftAfter reads garbledStream)).outcome = .ok (some message) ∧
        ((cfg.handle message).run t).1 = .error fault := by
  have hconverts : ∀ reads, Converts (leftAfter reads garbledStream) :=
    converts_leftAfter (converts_of_isOk (by decide +kernel))
      (converts_of_isOk (by decide +kernel)) (by decide +kernel)
  exact ⟨hconverts, reading_fails_only_when_oversized hconverts⟩

/-- A length of two to the sixty-third, and the body of an empty object. -/
def oversizedStream : List UInt8 :=
  Text.Utf8.encode "Content-Length: 9223372036854775808\r\n\r\n\x7b\x7d".toList

/-- Not every stream is read without a fault: a length that no body can have is one, and
it ends the server before any message is served. -/
theorem oversized_length_ends_server :
    (∀ reads, Converts (leftAfter reads oversizedStream)) ∧
      (read oversizedStream).outcome = .error .frameTooLong ∧
      ∀ cfg : Config, (cfg.run oversizedStream).outcome = .error .frameTooLong := by
  have hfound : (headers? oversizedStream).any (fun found =>
      decide (maxLength < bodyLength found.1) && found.2.length == 2) = true := by
    decide +kernel
  obtain ⟨⟨lines, rest⟩, hheaders, hlength⟩ := (Option.any_eq_true _ _).mp hfound
  simp only [Bool.and_eq_true, decide_eq_true_eq, beq_iff_eq] at hlength
  have hread := read_of_oversized ⟨lines, rest, hheaders, hlength.1⟩
  refine ⟨?_, hread, fun cfg => ?_⟩
  · have hmax : 2 ≤ maxLength := by decide
    exact converts_leftAfter (converts_of_cutShort hheaders (by omega))
      (converts_of_isOk (by decide +kernel)) (by decide +kernel)
  · have hexit : ¬(cfg.start.logged
        [⟨.info, serverName ++ " " ++ serverVersion ++ " started"⟩]).exitRequested = true := by
      simp [Session.logged, start]
    rw [run, cfg.serve_eq _ hexit, hread]

end Config

end EditorBridge
