/-
The root below which names of other files are looked for.  One that is fixed stays for
good.  Otherwise the one that was named last counts, and the directory of the document as
long as none was named.  Every analysis of a run is given this root, whatever the message
that it is made for.
-/
import EditorBridge.Proofs.Settings
import Mathlib.Data.List.Induction

namespace EditorBridge

/-- Calls made for a message about a document, in a session with a root: a text that is
analyzed was just parsed as that of the document, and its names are looked for below the
root, or else in the directory of the document. -/
inductive Rooted (root : Option Path) (about : Option Text) : List Call → Prop where
  | nil : Rooted root about []
  | read {calls : List Call} (other : Text) (hcalls : Rooted root about calls) :
      Rooted root about (.read other :: calls)
  | parsed {calls : List Call} {uri : Text} {path : Path} (text : Text)
      (huri : about = some uri) (hpath : Uri.toPath uri = .ok path)
      (hcalls : Rooted root about calls) :
      Rooted root about (.parse text path.text :: calls)
  | analyzed {calls : List Call} {uri : Text} {path : Path} (text : Text)
      (huri : about = some uri) (hpath : Uri.toPath uri = .ok path)
      (hcalls : Rooted root about calls) :
      Rooted root about (.parse text path.text :: .analyze (root.getD path.parent) :: calls)

/-- What stands in front of an analysis, and the root it is given. -/
theorem Rooted.eq_of_analyze {root : Option Path} {about : Option Text} {calls : List Call}
    (hcalls : Rooted root about calls) {before behind : List Call} {found : Path}
    (hsplit : calls = before ++ .analyze found :: behind) :
    ∃ front text uri path, before = front ++ [.parse text path.text] ∧ about = some uri ∧
      Uri.toPath uri = .ok path ∧ found = root.getD path.parent := by
  induction hcalls generalizing before with
  | nil => simp at hsplit
  | read other _ ih =>
      cases before with
      | nil => simp at hsplit
      | cons call before =>
          obtain ⟨front, text, uri, path, rfl, hfound⟩ := ih (List.cons.inj hsplit).2
          exact ⟨call :: front, text, uri, path, rfl, hfound⟩
  | parsed _ _ _ _ ih =>
      cases before with
      | nil => simp at hsplit
      | cons call before =>
          obtain ⟨front, text, uri, path, rfl, hfound⟩ := ih (List.cons.inj hsplit).2
          exact ⟨call :: front, text, uri, path, rfl, hfound⟩
  | @analyzed calls uri path text huri hpath _ ih =>
      cases before with
      | nil => simp at hsplit
      | cons call before =>
          obtain ⟨rfl, hrest⟩ := List.cons.inj hsplit
          cases before with
          | nil =>
              obtain ⟨hroot, -⟩ := List.cons.inj hrest
              exact ⟨[], text, uri, path, rfl, huri, hpath, (Call.analyze.inj hroot).symm⟩
          | cons second before =>
              obtain ⟨front, text', uri, path', rfl, hfound⟩ := ih (List.cons.inj hrest).2
              exact ⟨_ :: second :: front, text', uri, path', rfl, hfound⟩

/-- The calls of one analysis, with any that are made behind it. -/
theorem rooted_examine (host : Host) (root : Option Path) (history : List Call)
    {about : Option Text} {uri : Text} (huri : about = some uri) (text : Text)
    {calls : List Call} (hcalls : Rooted root about calls) :
    Rooted root about ((host.examine root history uri text).calls ++ calls) := by
  unfold Host.examine
  split
  next => exact hcalls
  next path hpath =>
      simp only
      split
      · exact .parsed text huri hpath hcalls
      · exact .parsed text huri hpath hcalls
      · split
        · exact .analyzed text huri hpath hcalls
        · exact .analyzed text huri hpath hcalls
        · exact .analyzed text huri hpath hcalls

namespace Config

open Serving

/-- Whether a message is one that may name the root. -/
def isStart (message : Json.Fields) : Bool :=
  match Json.Fields.get? message "method" with
  | some (.str method) => method == "initialize"
  | _ => false

theorem startRoot?_eq_none {message : Json.Fields} (hmessage : isStart message = false) :
    startRoot? message = none := by
  unfold startRoot?
  split
  next hstart =>
      rw [isStart, (isRequest_iff.mp hstart).1] at hmessage
      exact nomatch hmessage
  next => rfl

/-- A message leaves the root as it is, unless it is one that may name it. -/
theorem root_after (cfg : Config) (s : Session) {message : Json.Fields}
    (hmessage : isStart message = false) : (cfg.after s message).root = s.root := by
  have hroot := congrArg Settings.root (cfg.settings_after s message)
  simp only [startRoot?_eq_none hmessage, Option.none_or, ite_self] at hroot
  exact hroot

/-- The root that was named last in a run. -/
def latestRoot (messages : List Json.Fields) : Option Path :=
  (messages.filterMap startRoot?).getLast?

theorem latestRoot_append (messages : List Json.Fields) (message : Json.Fields) :
    latestRoot (messages ++ [message]) = (startRoot? message).or (latestRoot messages) := by
  rw [latestRoot, List.filterMap_append, List.getLast?_append]
  cases hroot : startRoot? message with
  | none => rw [List.filterMap_cons_none hroot]; rfl
  | some root => rw [List.filterMap_cons_some hroot]; rfl

/-- The root of a session is the one that is fixed, or else the one that was named last. -/
theorem root_foldl (cfg : Config) (messages : List Json.Fields) :
    (messages.foldl cfg.after cfg.start).root = cfg.rootOverride.or (latestRoot messages) := by
  induction messages using List.reverseRecOn with
  | nil => exact (Option.or_none).symm
  | append_singleton messages message ih =>
      have hroot := congrArg Settings.root
        (cfg.settings_after (messages.foldl cfg.after cfg.start) message)
      rw [List.foldl_append, latestRoot_append]
      refine hroot.trans ?_
      simp only [ih]
      cases cfg.rootOverride with
      | none => rfl
      | some root => rfl

theorem Steps.calls {cfg : Config} {about : Option Text} {s t : Session}
    (hsteps : cfg.Steps about s t) :
    ∃ more, t.calls = s.calls ++ more ∧ Rooted s.root about more := by
  -- the first step is taken off, since an analysis stands in front of what comes behind it
  induction hsteps using Relation.ReflTransGen.head_induction_on with
  | refl => exact ⟨[], (List.append_nil _).symm, .nil⟩
  | head hstep _ ih =>
      obtain ⟨more, hcalls, hrooted⟩ := ih
      cases hstep with
      | noted documents sent log => exact ⟨more, hcalls, hrooted⟩
      | read other =>
          exact ⟨.read other :: more, hcalls.trans (by simp), .read other hrooted⟩
      | examined huri text =>
          refine ⟨_, hcalls.trans (List.append_assoc _ _ _), ?_⟩
          exact rooted_examine _ _ _ huri text hrooted

/-- The calls made for a message. -/
theorem calls_after (cfg : Config) (s : Session) (message : Json.Fields) :
    ∃ more, (cfg.after s message).calls = s.calls ++ more ∧
      Rooted s.root (Action.ofMessage cfg.readers message).uri? more := by
  have hnone : ∃ more, s.calls = s.calls ++ more ∧
      Rooted s.root (Action.ofMessage cfg.readers message).uri? more :=
    ⟨[], (List.append_nil _).symm, .nil⟩
  have hserves := cfg.serves_after s message
  generalize cfg.after s message = t at hserves
  cases hserves with
  | unknown sent log hrequest hnotification => exact hnone
  | @answered method request id sent log hmessage hlookup =>
      cases hquery : request.isQuery with
      | true =>
          rw [ofMessage_of_isRequest hmessage, Action.ofRequest_of_mem (mem_of_lookup hlookup)]
          exact (stepwise_answer hquery _ (received s id method)).calls
      | false =>
          cases request with
          | start =>
              obtain ⟨log', hstart⟩ :=
                cfg.snd_run_answer_start (paramsOf message) (received s id method)
              rw [hstart]
              exact hnone
          | shutdown => exact hnone
          | _ => exact nomatch hquery
  | @taken method notification sent log hmessage hlookup =>
      by_cases hexit : notification = .exit
      · rw [hexit]
        exact hnone
      · rw [ofMessage_of_isNotification hmessage,
          Action.ofNotification_of_mem (mem_of_lookup hlookup)]
        exact (stepwise_take hexit _ (arrived s method)).calls

end Config

end EditorBridge
