/-
Faults that end only the work on one message.  When the host raises no other faults,
no request does: whatever its parameters are, and whatever trees and texts the host
gives, its work ends with a result or with an ordinary fault.
-/
import EditorBridge.Proofs.Documents

namespace EditorBridge

variable {α β ε : Type}

/-- An outcome that is a value, or a fault that ends only the work on one message. -/
def Mild (outcome : Except Fault α) : Prop :=
  ∀ fault, outcome = .error fault → fault.isOrdinary = true

namespace Mild

theorem ok (value : α) : Mild (.ok value) := by
  intro fault h
  exact nomatch h

theorem error {fault : Fault} (hfault : fault.isOrdinary = true) :
    Mild (.error fault : Except Fault α) := by
  intro other h
  exact Except.error.inj h ▸ hfault

theorem bind {outcome : Except Fault α} {next : α → Except Fault β} (houtcome : Mild outcome)
    (hnext : ∀ value, Mild (next value)) : Mild (outcome >>= next) := by
  cases outcome with
  | error fault => exact error (houtcome fault rfl)
  | ok value => exact hnext value

theorem map {outcome : Except Fault α} (houtcome : Mild outcome) (change : α → β) :
    Mild (outcome.map change) := by
  cases outcome with
  | error fault => exact error (houtcome fault rfl)
  | ok value => exact ok (change value)

theorem mapError {cause : ε → Fault} (hcause : ∀ e, (cause e).isOrdinary = true)
    (outcome : Except ε α) : Mild (outcome.mapError cause) := by
  cases outcome with
  | error e => exact error (hcause e)
  | ok value => exact ok value

theorem mapM {work : α → Except Fault β} (hwork : ∀ item, Mild (work item)) (items : List α) :
    Mild (items.mapM work) := by
  induction items with
  | nil => exact ok []
  | cons item rest ih =>
      rw [List.mapM_cons]
      exact (hwork item).bind fun value => ih.bind fun values => ok (value :: values)

end Mild

theorem Fault.isOrdinary_ofRange (cause : RangeError) :
    (Fault.ofRange cause).isOrdinary = true := by
  cases cause <;> rfl

theorem Fault.isOrdinary_ofReportError (cause : Diagnostic.ReportError) :
    (Fault.ofReportError cause).isOrdinary = true := by
  cases cause with
  | numeral cause => rfl
  | range cause => exact isOrdinary_ofRange cause

theorem Fault.isOrdinary_ofWrite (cause : Outgoing.WriteError) :
    (Fault.ofWrite cause).isOrdinary = true := by
  cases cause <;> rfl

/-- A host that never ends the whole program. -/
structure Host.IsOrdinary (host : Host) : Prop where
  parse : ∀ calls text filename, Mild (host.parse calls text filename)
  analyze : ∀ calls tree root, Mild (host.analyze calls tree root)
  read : ∀ calls uri, Mild (host.read calls uri)

theorem Analysis.mild_ofReport (tree : Option Tree) (report text : Text) :
    Mild (Analysis.ofReport tree report text) := by
  unfold Analysis.ofReport
  split
  · exact .ok _
  · exact .error (Fault.isOrdinary_ofReportError _)

theorem Host.IsOrdinary.examine {host : Host} (hhost : host.IsOrdinary) (root : Option Path)
    (calls : List Call) (uri text : Text) :
    Mild (host.examine root calls uri text).outcome := by
  unfold Host.examine
  split
  next => exact .error rfl
  next path hpath =>
      simp only
      split
      next => exact Analysis.mild_ofReport _ _ _
      next fault _ hparse => exact .error (hhost.parse _ _ _ fault hparse)
      next parsed hparse =>
          split
          next => exact Analysis.mild_ofReport _ _ _
          next fault _ hanalyze => exact .error (hhost.analyze _ _ _ fault hanalyze)
          next => exact .ok _

namespace Tree

theorem mild_destination (tree : Tree) (location : Location) (uri : Text) :
    Mild (tree.destination location uri) := by
  unfold destination
  simp only
  split
  · exact .ok _
  · split
    · exact .ok _
    · split
      · exact .ok _
      · apply (Mild.mapError (fun _ => rfl) _).bind
        intro path
        split
        · exact (Mild.mapError (fun _ => rfl) _).bind fun _ => .ok _
        · exact .ok _

theorem mild_definition (tree : Tree) (location : Location) (text : List CodePoint) (uri : Text)
    {read : Text → Except Fault Text} (hread : ∀ other, Mild (read other)) :
    Mild (tree.definition location text uri read) := by
  apply (tree.mild_destination location uri).bind
  intro destination
  cases destination with
  | nowhere => exact .ok []
  | here target => exact (Mild.mapError Fault.isOrdinary_ofRange _).bind fun _ => .ok _
  | elsewhere other target =>
      apply (hread other).bind
      intro otherText
      exact (Mild.mapError Fault.isOrdinary_ofRange _).bind fun _ => .ok _

end Tree

theorem Graph.mild_enumFieldDetail (g : Graph) (id : NodeId) : Mild (g.enumFieldDetail id) := by
  unfold enumFieldDetail
  split
  · exact .ok _
  · split
    · exact .ok _
    · exact .error rfl

theorem Graph.mild_fieldEntries (g : Graph) (text : List CodePoint) (tag : String)
    {detail : NodeId → Except Fault Text} (hdetail : ∀ id, Mild (detail id)) (ids : List NodeId) :
    Mild (g.fieldEntries text tag detail ids) := by
  refine (Mild.mapM (fun id => ?_) ids).map _
  unfold fieldSymbol?
  simp only
  split
  · exact .ok none
  · apply (Mild.mapError Fault.isOrdinary_ofRange _).bind
    intro range
    exact (hdetail id).bind fun _ => .ok _

theorem Graph.mild_nameContents (g : Graph) (text : List CodePoint) (symbol : Symbol)
    (id : NodeId) : Mild (g.nameContents text symbol id) := by
  unfold nameContents
  split
  next => exact .ok _
  next expr hexpr =>
      simp only
      split
      · exact (g.mild_fieldEntries text _ (fun _ => .ok _) _).map _
      · split
        · exact (g.mild_fieldEntries text _ g.mild_enumFieldDetail _).map _
        · exact .ok _

theorem Graph.mild_nameEntry (g : Graph) (text : List CodePoint) (block : NodeId) (name : Text)
    (symbol : Symbol) (id : NodeId) : Mild (g.nameEntry text block name symbol id) := by
  apply (g.mild_nameContents text symbol id).bind
  rintro ⟨kind, detail, fields⟩
  apply (Mild.mapError Fault.isOrdinary_ofRange _).bind
  intro range
  exact (Mild.mapError Fault.isOrdinary_ofRange _).bind fun _ => .ok _

/-- The outline of a block fails for a range or for a scope inside itself, and not
otherwise.  The induction follows the scopes from the outside in. -/
theorem Graph.mild_scopeEntries (g : Graph) (text : List CodePoint) (src : Option Path)
    (visited : List ScopeId) (block : NodeId) :
    Mild (g.scopeEntries text src visited block) := by
  induction visited, block using Graph.scopeEntries.induct g with
  | case1 visited block hscope =>
      rw [Graph.scopeEntries]
      split
      next => exact .ok []
      next scope hsome => rw [hscope] at hsome; exact nomatch hsome
  | case2 visited block scope hscope hvisited =>
      rw [Graph.scopeEntries]
      split
      next => exact .ok []
      next found hfound =>
          obtain rfl := Option.some.inj (hscope.symm.trans hfound)
          rw [dif_pos hvisited]
          exact .error rfl
  | case3 visited block scope hscope hvisited ih =>
      rw [Graph.scopeEntries]
      split
      next => exact .ok []
      next found hfound =>
          obtain rfl := Option.some.inj (hscope.symm.trans hfound)
          rw [dif_neg hvisited]
          refine (Mild.mapM ?_ _).bind fun functions => ?_
          · intro shown
            apply (Mild.mapError Fault.isOrdinary_ofRange _).bind
            intro range
            apply (Mild.mapError Fault.isOrdinary_ofRange _).bind
            intro selection
            cases shown.body with
            | some body => exact (ih body).bind fun _ => .ok _
            | none => exact .ok _
          · refine (Mild.mapM ?_ _).bind fun names => .ok _
            exact fun shown => g.mild_nameEntry text block _ _ _

namespace Serving

/-- Work whose faults end only the work on one message. -/
def Ordinary (work : Serving α) : Prop := ∀ s, Mild (work.run s).1

theorem ordinary_pure (value : α) : (pure value : Serving α).Ordinary := fun _ => .ok value

theorem ordinary_note (level : Log.Level) (message : Text) :
    (note level message).Ordinary := fun _ => .ok ()

theorem ordinary_modify (change : Session → Session) :
    (modify change : Serving PUnit).Ordinary := fun _ => .ok ()

theorem ordinary_lift {outcome : Except Fault α} (houtcome : Mild outcome) :
    (lift outcome).Ordinary := by
  intro s
  rw [run_lift]
  exact houtcome

theorem Ordinary.bind {work : Serving α} {next : α → Serving β} (hwork : work.Ordinary)
    (hnext : ∀ value, (next value).Ordinary) : (work >>= next).Ordinary := by
  intro s
  have hstart := hwork s
  rw [run_bind]
  generalize work.run s = ended at hstart
  rcases ended with ⟨outcome, t⟩
  cases outcome with
  | error fault => exact .error (hstart fault rfl)
  | ok value => exact hnext value t

end Serving

namespace Config

open Serving

theorem ordinary_ofParams (shape : Params.Shape) (read : Except Text α) :
    (ofParams shape read).Ordinary :=
  ordinary_lift (Mild.mapError (fun _ => rfl) read)

/-- A message that cannot be written ends only the work on it. -/
theorem ordinary_send (message : Outgoing) : (send message).Ordinary := by
  intro s
  rw [run_send]
  rcases message.sending_cases with ⟨-, hsending, -⟩ | ⟨-, cause, hsending, -⟩
  · rw [hsending]
    exact .ok ()
  · rw [hsending]
    exact .error (Fault.isOrdinary_ofWrite cause)

theorem ordinary_publish (cfg : Config) (uri : Text) (diagnostics : List Diagnostic) :
    (cfg.publish uri diagnostics).Ordinary := by
  unfold publish
  split
  · exact ordinary_send _
  · exact ordinary_pure ()

theorem mild_namedRoot (params : Json) : Mild (namedRoot params) := by
  cases params with
  | obj fields =>
      simp only [namedRoot]
      -- the field that comes first, and then the other one
      split
      · split
        · exact .ok _
        · exact .error rfl
      · split
        · split
          · exact .ok _
          · exact .error rfl
        · exact .ok none
  | _ => exact .error rfl

theorem ordinary_takeRoot (cfg : Config) (params : Json) : (cfg.takeRoot params).Ordinary := by
  unfold takeRoot
  split
  · exact ordinary_pure ()
  · apply (ordinary_lift (mild_namedRoot params)).bind
    intro root
    cases root with
    | none => exact ordinary_pure ()
    | some uri =>
        apply (ordinary_lift (Mild.mapError (fun _ => rfl) _)).bind
        intro path
        exact (ordinary_modify _).bind fun _ => ordinary_note _ _

section

variable {cfg : Config} (hhost : cfg.host.IsOrdinary)
include hhost

theorem ordinary_examine (uri text : Text) : (cfg.examine uri text).Ordinary := by
  intro s
  rw [run_examine]
  exact hhost.examine s.root s.calls uri text

theorem ordinary_refresh (uri text : Text) : (cfg.refresh uri text).Ordinary := by
  apply (ordinary_examine hhost uri text).bind
  intro analysis
  apply (ordinary_modify _).bind
  intro _
  apply (ordinary_note _ _).bind
  intro _
  exact (ordinary_publish cfg uri _).bind fun _ => ordinary_pure _

theorem ordinary_document (uri : Text) : (cfg.document uri).Ordinary := by
  intro s
  cases hdocument : s.documents.get? uri with
  | some document =>
      rw [cfg.run_document_of_some hdocument]
      exact .ok document
  | none =>
      simp only [Config.document, run_bind, run_get, hdocument, run_note, run_readText]
      cases hread : cfg.host.read s.calls uri with
      | error fault => exact .error (hhost.read s.calls uri fault hread)
      | ok text => exact ordinary_refresh hhost uri text _

theorem ordinary_probe (uri text : Text) : (cfg.probe uri text).Ordinary := by
  apply (ordinary_examine hhost uri text).bind
  intro analysis
  exact (ordinary_note _ _).bind fun _ => ordinary_pure _

theorem ordinary_complete (uri : Text) (line character : Int) :
    (cfg.complete uri line character).Ordinary := by
  apply (ordinary_document hhost uri).bind
  intro document
  apply (ordinary_lift (Mild.mapError (fun _ => rfl) _)).bind
  intro offset
  apply (ordinary_probe hhost uri _).bind
  intro tree
  cases tree with
  | none => exact ordinary_pure []
  | some tree =>
      simp only
      split
      · exact ordinary_pure []
      · exact (ordinary_note _ _).bind fun _ => ordinary_pure _

theorem ordinary_completion (params : Params.PositionParams) :
    (cfg.completion params).Ordinary := by
  intro s
  have hcomplete := ordinary_complete hhost params.uri params.position.line
    params.position.character s
  rw [completion, run_bind, run_attempt]
  generalize (cfg.complete _ _ _).run s = completed at hcomplete
  rcases completed with ⟨outcome, t⟩
  simp only
  split
  · exact .ok _
  · exact .ok _
  · exact .error (hcomplete _ rfl)

theorem ordinary_find (params : Params.PositionParams) : (cfg.find params).Ordinary := by
  apply (ordinary_document hhost params.uri).bind
  intro document
  split
  · exact ordinary_pure none
  · split
    · exact (ordinary_note _ _).bind fun _ => ordinary_pure none
    · exact ordinary_pure _

theorem ordinary_hover (params : Params.PositionParams) : (cfg.hover params).Ordinary := by
  apply (ordinary_find hhost params).bind
  intro found
  split
  · exact ordinary_pure none
  · exact ordinary_lift (Mild.mapError Fault.isOrdinary_ofRange _)

theorem ordinary_definition (params : Params.PositionParams) :
    (cfg.definition params).Ordinary := by
  apply (ordinary_find hhost params).bind
  intro found
  split
  · exact ordinary_pure []
  · intro s
    obtain ⟨t, hrun, -⟩ := cfg.run_links _ _ _ s
    rw [hrun]
    exact Tree.mild_definition _ _ _ _ (hhost.read s.calls)

theorem ordinary_outline (uri : Text) : (cfg.outline uri).Ordinary := by
  apply (ordinary_document hhost uri).bind
  intro document
  split
  · exact ordinary_pure []
  · exact ordinary_lift (Graph.mild_scopeEntries _ _ _ _ _)

/-- The work on a request never ends the whole program. -/
theorem ordinary_answer (request : Request) (params : Json) :
    (cfg.answer request params).Ordinary := by
  cases request with
  | start => exact (cfg.ordinary_takeRoot params).bind fun _ => ordinary_pure introduction
  | shutdown => exact (ordinary_modify _).bind fun _ => ordinary_pure Json.null
  | hover =>
      apply (ordinary_ofParams _ _).bind
      intro place
      exact (ordinary_hover hhost place).bind fun _ => ordinary_pure _
  | definition =>
      apply (ordinary_ofParams _ _).bind
      intro place
      exact (ordinary_definition hhost place).bind fun _ => ordinary_pure _
  | outline =>
      apply (ordinary_ofParams _ _).bind
      intro uri
      exact (ordinary_outline hhost uri).bind fun _ => ordinary_pure _
  | completion =>
      apply (ordinary_ofParams _ _).bind
      intro place
      exact (ordinary_completion hhost place).bind fun _ => ordinary_pure _

/-- Neither does the work on a notification. -/
theorem ordinary_take (notification : Notification) (params : Json) :
    (cfg.take notification params).Ordinary := by
  cases notification with
  | started => exact ordinary_pure ()
  | exit => exact ordinary_modify _
  | opened =>
      apply (ordinary_ofParams _ _).bind
      intro item
      apply (ordinary_refresh hhost item.uri item.text).bind
      intro document
      split
      · exact (ordinary_note _ _).bind fun _ => ordinary_send _
      · exact ordinary_pure ()
  | changed =>
      apply (ordinary_ofParams _ _).bind
      intro change
      split
      · exact ordinary_pure ()
      · exact (ordinary_refresh hhost _ _).bind fun _ => ordinary_pure ()
  | closed =>
      apply (ordinary_ofParams _ _).bind
      intro uri s
      simp only [close, run_bind, run_get, run_modify, run_pure]
      exact ordinary_publish cfg uri [] _

end

end Config

end EditorBridge
