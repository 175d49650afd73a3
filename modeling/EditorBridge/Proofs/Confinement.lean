/-
Work about one document.  Confined work takes from a session no more than its root
and what it holds of that document: in two sessions that agree on these it ends
alike, sends the same, and leaves them in agreement.  With a host whose answers do
not depend on the calls made before, all work on a document is confined to it.
-/
import EditorBridge.Proofs.Documents

namespace EditorBridge

/-- A host whose analyses depend on the text, the name of the file and the root alone. -/
structure Host.AnalyzesSteadily (host : Host) : Prop where
  parse : ∀ calls others text filename,
    host.parse calls text filename = host.parse others text filename
  analyze : ∀ calls others text filename parsed root,
    host.parse calls text filename = .ok parsed →
      host.analyze (calls ++ [.parse text filename]) parsed root =
        host.analyze (others ++ [.parse text filename]) parsed root

/-- A host that answers the same whatever was asked before: an analysis depends on the
text, the name of the file and the root, and a reading on the URI. -/
structure Host.IsSteady (host : Host) : Prop extends host.AnalyzesSteadily where
  read : ∀ calls others uri, host.read calls uri = host.read others uri

theorem Host.AnalyzesSteadily.examine {host : Host} (hsteady : host.AnalyzesSteadily)
    (root : Option Path) (calls others : List Call) (uri text : Text) :
    host.examine root calls uri text = host.examine root others uri text := by
  unfold Host.examine
  cases Uri.toPath uri with
  | error cause => rfl
  | ok path =>
      simp only
      rw [hsteady.parse others calls]
      cases hparse : host.parse calls text path.text with
      | error fault => cases fault <;> rfl
      | ok parsed =>
          simp only
          rw [hsteady.analyze calls others _ _ _ _ hparse]

/-- Two sessions that hold the same of a document and have the same root. -/
structure Session.AgreeOn (uri : Text) (s t : Session) : Prop where
  document : t.documents.get? uri = s.documents.get? uri
  root : t.root = s.root

namespace Session.AgreeOn

variable {uri : Text} {s t u : Session}

theorem refl (uri : Text) (s : Session) : s.AgreeOn uri s := ⟨rfl, rfl⟩

theorem symm (h : s.AgreeOn uri t) : t.AgreeOn uri s := ⟨h.document.symm, h.root.symm⟩

theorem trans (hst : s.AgreeOn uri t) (htu : t.AgreeOn uri u) : s.AgreeOn uri u :=
  ⟨htu.document.trans hst.document, htu.root.trans hst.root⟩

theorem of_alike (h : s.Alike t) : s.AgreeOn uri t := ⟨by rw [h.documents], h.root⟩

end Session.AgreeOn

/-- Two sessions have gone on to two that agree on a document, and the same was sent in
both. -/
structure Session.Parallel (uri : Text) (s t s' t' : Session) : Prop where
  agree : s'.AgreeOn uri t'
  frames : ∃ frames, s'.sent = s.sent ++ frames ∧ t'.sent = t.sent ++ frames

namespace Session.Parallel

variable {uri : Text} {s t s' t' s'' t'' : Session}

theorem of_sent_eq (hagree : s'.AgreeOn uri t') (hs : s'.sent = s.sent) (ht : t'.sent = t.sent) :
    Parallel uri s t s' t' :=
  ⟨hagree, [], by rw [hs, List.append_nil], by rw [ht, List.append_nil]⟩

theorem trans (hfirst : Parallel uri s t s' t') (hsecond : Parallel uri s' t' s'' t'') :
    Parallel uri s t s'' t'' := by
  obtain ⟨first, hs, ht⟩ := hfirst.frames
  obtain ⟨second, hs', ht'⟩ := hsecond.frames
  refine ⟨hsecond.agree, first ++ second, ?_, ?_⟩
  · rw [hs', hs, List.append_assoc]
  · rw [ht', ht, List.append_assoc]

end Session.Parallel

namespace Serving

variable {α β : Type} {uri : Text}

/-- Work that ends alike and goes on alike in sessions that agree on a document. -/
def Confined (uri : Text) (work : Serving α) : Prop :=
  ∀ ⦃s t : Session⦄, s.AgreeOn uri t →
    (work.run t).1 = (work.run s).1 ∧ Session.Parallel uri s t (work.run s).2 (work.run t).2

theorem confined_of_quiet {work : Serving α} (hquiet : work.Quiet)
    (houtcome : ∀ ⦃s t : Session⦄, s.AgreeOn uri t → (work.run t).1 = (work.run s).1) :
    work.Confined uri := by
  intro s t hagree
  have hs := hquiet s
  have ht := hquiet t
  have hagree' : (work.run s).2.AgreeOn uri (work.run t).2 :=
    ((Session.AgreeOn.of_alike hs).symm.trans hagree).trans (.of_alike ht)
  exact ⟨houtcome hagree, .of_sent_eq hagree' hs.sent ht.sent⟩

theorem confined_pure (value : α) : (pure value : Serving α).Confined uri :=
  confined_of_quiet (quiet_pure value) fun _ _ _ => rfl

theorem confined_throw (fault : Fault) : (throw fault : Serving α).Confined uri :=
  confined_of_quiet (quiet_throw fault) fun _ _ _ => rfl

theorem confined_note (level : Log.Level) (message : Text) :
    (note level message).Confined uri :=
  confined_of_quiet (quiet_note level message) fun _ _ _ => rfl

theorem confined_lift (outcome : Except Fault α) : (lift outcome).Confined uri := by
  apply confined_of_quiet (quiet_lift outcome)
  intro s t _
  rw [run_lift, run_lift]

theorem confined_noteShowing (values : List Json) (level : Log.Level) (message : Text) :
    (noteShowing values level message).Confined uri := by
  unfold noteShowing
  split
  · exact confined_note level message
  · exact confined_pure ()

theorem confined_send (message : Outgoing) : (send message).Confined uri := by
  intro s t hagree
  rw [run_send, run_send]
  exact ⟨rfl, ⟨hagree.document, hagree.root⟩, message.written, rfl, rfl⟩

theorem confined_modify {change : Session → Session}
    (hchange : ∀ ⦃s t : Session⦄, s.AgreeOn uri t → (change s).AgreeOn uri (change t))
    (hsent : ∀ s, (change s).sent = s.sent) :
    (modify change : Serving PUnit).Confined uri :=
  fun s t hagree => ⟨rfl, .of_sent_eq (hchange hagree) (hsent s) (hsent t)⟩

theorem Confined.bind {work : Serving α} {next : α → Serving β} (hwork : work.Confined uri)
    (hnext : ∀ value, (next value).Confined uri) : (work >>= next).Confined uri := by
  intro s t hagree
  obtain ⟨houtcome, hparallel⟩ := hwork hagree
  rw [run_bind, run_bind]
  generalize work.run s = ended at houtcome hparallel
  generalize work.run t = ended' at houtcome hparallel
  rcases ended with ⟨outcome, s'⟩
  rcases ended' with ⟨outcome', t'⟩
  obtain rfl : outcome' = outcome := houtcome
  cases outcome' with
  | error fault => exact ⟨rfl, hparallel⟩
  | ok value =>
      obtain ⟨hsame, hlater⟩ := hnext value hparallel.agree
      exact ⟨hsame, hparallel.trans hlater⟩

/-- Work behind a result that may be missing has to be confined only for that result. -/
theorem confined_lift_bind {outcome : Except Fault α} {next : α → Serving β}
    (hnext : ∀ value, outcome = .ok value → (next value).Confined uri) :
    (lift outcome >>= next).Confined uri := by
  cases outcome with
  | error fault => exact confined_throw fault
  | ok value => exact hnext value rfl

theorem Confined.attempt {work : Serving α} (hwork : work.Confined uri) :
    (attempt work).Confined uri := by
  intro s t hagree
  obtain ⟨houtcome, hparallel⟩ := hwork hagree
  exact ⟨congrArg Except.ok houtcome, hparallel⟩

end Serving

namespace Config

open Serving

variable {cfg : Config} {uri : Text}

theorem confined_publish (diagnostics : List Diagnostic) :
    (cfg.publish uri diagnostics).Confined uri := by
  unfold publish
  split
  · exact confined_send _
  · exact confined_pure ()

theorem confined_close : (close uri).Confined uri := by
  intro s t hagree
  have hholds : t.holds uri = s.holds uri := by
    simp only [Session.holds, Table.contains_eq_isSome_get?, hagree.document]
  refine ⟨congrArg Except.ok hholds, .of_sent_eq ⟨?_, hagree.root⟩ rfl rfl⟩
  change (t.documents.erase uri).get? uri = (s.documents.erase uri).get? uri
  rw [Table.get?_erase, Table.get?_erase, if_pos rfl, if_pos rfl]

theorem confined_takeRoot (params : Json) : (cfg.takeRoot params).Confined uri := by
  unfold takeRoot
  split
  · exact confined_pure ()
  · apply (confined_lift _).bind
    intro root
    cases root with
    | none => exact confined_pure ()
    | some named =>
        apply (confined_lift _).bind
        intro path
        apply Confined.bind
        · apply confined_modify
          · exact fun s t hagree => ⟨hagree.document, rfl⟩
          · exact fun s => rfl
        · exact fun _ => confined_note _ _

section

variable (hsteady : cfg.host.IsSteady)
include hsteady

theorem confined_examine (about text : Text) : (cfg.examine about text).Confined uri := by
  apply confined_of_quiet (cfg.quiet_examine about text)
  intro s t hagree
  have hsame := hsteady.toAnalyzesSteadily.examine s.root t.calls s.calls
  rw [run_examine, run_examine, hagree.root, hsame]

theorem confined_readText (other : Text) : (cfg.readText other).Confined uri := by
  apply confined_of_quiet
  · intro s
    rw [run_readText]
    exact ⟨rfl, rfl, rfl, rfl, rfl⟩
  · intro s t _
    rw [run_readText, run_readText, hsteady.read t.calls s.calls]

theorem confined_refresh (text : Text) : (cfg.refresh uri text).Confined uri := by
  apply (confined_examine hsteady uri text).bind
  intro analysis
  apply Confined.bind
  · apply confined_modify
    · intro s t hagree
      refine ⟨?_, hagree.root⟩
      change (t.documents.insert uri _).get? uri = (s.documents.insert uri _).get? uri
      rw [Table.get?_insert, Table.get?_insert, if_pos rfl, if_pos rfl]
    · exact fun s => rfl
  · intro _
    apply (confined_note _ _).bind
    intro _
    exact (confined_publish _).bind fun _ => confined_pure _

theorem confined_document : (cfg.document uri).Confined uri := by
  intro s t hagree
  cases hdocument : s.documents.get? uri with
  | some document =>
      rw [cfg.run_document_of_some hdocument,
        cfg.run_document_of_some (hagree.document.trans hdocument)]
      exact ⟨rfl, .of_sent_eq hagree rfl rfl⟩
  | none =>
      have hload : (do
          note .debug ("Document " ++ uri ++ " not cached; reading from disk")
          let text ← cfg.readText uri
          cfg.refresh uri text).Confined uri := by
        apply (confined_note _ _).bind
        intro _
        exact (confined_readText hsteady uri).bind fun text => confined_refresh hsteady text
      have hrun := hload hagree
      simp only [Config.document, run_bind, run_get, hdocument, hagree.document] at hrun ⊢
      exact hrun

theorem confined_probe (text : Text) : (cfg.probe uri text).Confined uri := by
  apply (confined_examine hsteady uri text).bind
  intro analysis
  exact (confined_note _ _).bind fun _ => confined_pure _

theorem confined_complete (line character : Int) :
    (cfg.complete uri line character).Confined uri := by
  apply (confined_document hsteady).bind
  intro document
  apply (confined_lift _).bind
  intro offset
  apply (confined_probe hsteady _).bind
  intro tree
  cases tree with
  | none => exact confined_pure []
  | some tree =>
      simp only
      split
      · exact confined_pure []
      · exact (confined_note _ _).bind fun _ => confined_pure _

theorem confined_links (document : Document) (tree : Tree) (location : Location) :
    (cfg.links document tree location).Confined uri := by
  apply confined_of_quiet
  · intro s
    obtain ⟨u, hrun, halike⟩ := cfg.run_links document tree location s
    rw [hrun]
    exact halike
  · intro s t _
    obtain ⟨u, hrun, -⟩ := cfg.run_links document tree location s
    obtain ⟨v, hrun', -⟩ := cfg.run_links document tree location t
    rw [hrun, hrun', funext (hsteady.read t.calls s.calls)]

theorem confined_completion (position : Position) :
    (cfg.completion ⟨uri, position⟩).Confined uri := by
  apply (confined_complete hsteady _ _).attempt.bind
  intro outcome
  split
  · exact confined_pure _
  · exact (confined_note _ _).bind fun _ => confined_pure _
  · exact confined_throw _

theorem confined_find (position : Position) : (cfg.find ⟨uri, position⟩).Confined uri := by
  apply (confined_document hsteady).bind
  intro document
  split
  · exact confined_pure none
  · split
    · exact (confined_note _ _).bind fun _ => confined_pure none
    · exact confined_pure _

theorem confined_hover (position : Position) : (cfg.hover ⟨uri, position⟩).Confined uri := by
  apply (confined_find hsteady position).bind
  intro found
  split
  · exact confined_pure none
  · exact confined_lift _

theorem confined_definition (position : Position) :
    (cfg.definition ⟨uri, position⟩).Confined uri := by
  apply (confined_find hsteady position).bind
  intro found
  split
  · exact confined_pure []
  · exact confined_links hsteady _ _ _

theorem confined_outline : (cfg.outline uri).Confined uri := by
  apply (confined_document hsteady).bind
  intro document
  split
  · exact confined_pure []
  · exact confined_lift _

end

end Config

end EditorBridge
