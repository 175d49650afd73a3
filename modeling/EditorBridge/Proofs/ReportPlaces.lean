/-
Where the entries of an error text lie, and what becomes of a text whose analysis ends
with one.  An entry on a line of the text is clipped to that line; the numbers of an entry
on no line are taken as they stand, and may be too large for the protocol.  Then the error
text cannot be told, and the text that came last is not kept.
-/
import EditorBridge.Proofs.Announcements
import EditorBridge.Proofs.Documents

namespace EditorBridge

namespace ErrorReport

/-- The numerals of all headers are short enough to be converted. -/
def Converts (report : List CodePoint) : Prop :=
  ∀ line ∈ Text.lines (withoutColours report), ∀ header, header? line = some header →
    header.line.length ≤ Text.maxNumeralDigits ∧ header.column.length ≤ Text.maxNumeralDigits

theorem length_chars {cs : List CodePoint} (hdigits : ∀ c ∈ cs, isDigit c = true) :
    (Text.chars cs).length = cs.length := by
  induction cs with
  | nil => rfl
  | cons c rest ih =>
      obtain ⟨hc, hrest⟩ := List.forall_mem_cons.mp hdigits
      cases c with
      | lone offset => exact absurd hc Bool.false_ne_true
      | char c => exact congrArg (· + 1) (ih hrest)

theorem exists_entry_iff {line : List CodePoint} {header : Header}
    (hheader : header? line = some header) (following : List (List CodePoint)) :
    (∃ read, entry header following = .ok read) ↔
      header.line.length ≤ Text.maxNumeralDigits ∧
        header.column.length ≤ Text.maxNumeralDigits := by
  obtain ⟨file, tail, rfl, hbehind⟩ := exists_behindFile_of_header? hheader
  obtain ⟨blanks, -, isLine, isColumn, -⟩ := eq_of_headerBehindFile? hbehind
  rw [entry, Text.readDigits, Text.readDigits, length_chars isLine.2, length_chars isColumn.2]
  by_cases hline : Text.maxNumeralDigits < header.line.length
  · simp [hline, Nat.not_le.mpr hline, bind, Except.bind]
  · by_cases hcolumn : Text.maxNumeralDigits < header.column.length
    · simp [hline, hcolumn, bind, Except.bind]
    · simp [hline, hcolumn, bind, Except.bind, Nat.not_lt.mp hline, Nat.not_lt.mp hcolumn]

theorem exists_entriesOfLines_iff (lines : List (List CodePoint)) :
    (∃ entries, entriesOfLines lines = .ok entries) ↔
      ∀ line ∈ lines, ∀ header, header? line = some header →
        header.line.length ≤ Text.maxNumeralDigits ∧
          header.column.length ≤ Text.maxNumeralDigits := by
  induction lines with
  | nil => exact ⟨fun _ => List.forall_mem_nil _, fun _ => ⟨[], rfl⟩⟩
  | cons line rest ih =>
      rw [List.forall_mem_cons, ← ih, entriesOfLines]
      rcases hheader : header? line with _ | header
      · simp
      · simp only [Option.some.injEq, forall_eq', ← exists_entry_iff hheader rest]
        rcases entry header rest with tooLong | first
        · simp [bind, Except.bind]
        · rcases entriesOfLines rest with tooLong | more
          · simp [bind, Except.bind]
          · simp [bind, Except.bind]

theorem exists_parse_iff (report : List CodePoint) :
    (∃ entries, parse report = .ok entries) ↔ Converts report :=
  exists_entriesOfLines_iff _

end ErrorReport

/-- The offset at which a line ends, in front of its newline. -/
def lineStop (text : List CodePoint) (line : Nat) : Nat :=
  lineStart text line + (lineText text line).length

theorem lineStop_le {text : List CodePoint} {line : Nat} (hline : line < lineCount text) :
    lineStop text line ≤ text.length := by
  obtain ⟨front, hfront, hlength, -⟩ := Position.behind_lineStart (Nat.le_of_lt_succ hline)
  have hsize := congrArg List.length hfront
  have htake : (lineText text line).length ≤ (dropLines line text).length :=
    (List.takeWhile_sublist _).length_le
  rw [List.length_append] at hsize
  rw [lineStop]
  omega

namespace ReportEntry

/-- The offset at which an entry begins that is on a line of the text. -/
def first (entry : ReportEntry) (text : List CodePoint) : Nat :=
  min (lineStart text (entry.line - 1) + (entry.column - 1)) (lineStop text (entry.line - 1))

/-- The offset at which an entry ends that is on a line of the text. -/
def last (entry : ReportEntry) (text : List CodePoint) : Nat :=
  min (entry.first text + entry.length) (lineStop text (entry.line - 1))

/-- Where an entry lies: from its first to its last offset when it is on a line of the text,
and where its numbers say when it is on none. -/
def extent (entry : ReportEntry) (text : List CodePoint) : Range :=
  if entry.line - 1 < lineCount text then
    ⟨Position.behind (text.take (entry.first text)), Position.behind (text.take (entry.last text))⟩
  else ⟨⟨entry.line - 1, entry.column - 1⟩, ⟨entry.line - 1, entry.column - 1 + entry.length⟩⟩

end ReportEntry

/-- What stands on its line in front of the ends of an entry can be measured: no lone
surrogate is in it. -/
def ReportEntry.IsMeasured (entry : ReportEntry) (text : List CodePoint) : Prop :=
  entry.line - 1 < lineCount text →
    Text.isWhole (Position.lastLine (text.take (entry.first text))) = true ∧
      Text.isWhole (Position.lastLine (text.take (entry.last text))) = true

instance (entry : ReportEntry) (text : List CodePoint) : Decidable (entry.IsMeasured text) :=
  inferInstanceAs (Decidable (_ → _ ∧ _))

/-- An entry can be shown in a text: what stands in front of it can be measured, and no
coordinate of its place is too large. -/
def ReportEntry.IsPlaceable (entry : ReportEntry) (text : List CodePoint) : Prop :=
  entry.IsMeasured text ∧ (entry.extent text).IsNameable

instance (entry : ReportEntry) (text : List CodePoint) : Decidable (entry.IsPlaceable text) :=
  inferInstanceAs (Decidable (_ ∧ _))

/-- Why an offset inside a text has no place: a coordinate is too large, or the text holds a
lone surrogate. -/
inductive RangeError.Inside (text : List CodePoint) : RangeError → Prop where
  | coordinate (cause : CoordinateError) : Inside text (.coordinate cause)
  | encoding (cause : Text.EncodeError) (hlone : Text.isWhole text = false) :
      Inside text (.encoding cause)

theorem Position.place_natCast_cases {text : List CodePoint} {n : Nat} (hn : n ≤ text.length) :
    (Text.isWhole (lastLine (text.take n)) = true ∧ (behind (text.take n)).IsNameable ∧
      place text n = .ok (behind (text.take n))) ∨
    ¬(Text.isWhole (lastLine (text.take n)) = true ∧ (behind (text.take n)).IsNameable) ∧
      ∃ cause, place text n = .error cause ∧ RangeError.Inside text cause := by
  rcases ofOffset_natCast_cases hn with ⟨hwhole, -⟩ | ⟨hlone, cause, herror⟩
  · rw [place_natCast hn hwhole]
    rcases (behind (text.take n)).check_cases with ⟨hnameable, hcheck⟩ | ⟨hlarge, cause, hcheck⟩
    · exact Or.inl ⟨hwhole, hnameable, by rw [hcheck]; rfl⟩
    · refine Or.inr ⟨fun h => hlarge h.2, .coordinate cause, ?_, .coordinate cause⟩
      rw [hcheck]
      rfl
  · refine Or.inr ⟨fun h => Bool.false_ne_true (hlone.symm.trans h.1), .encoding cause, ?_, ?_⟩
    · rw [place, herror]
      rfl
    · refine .encoding cause (Bool.eq_false_iff.mpr fun hwhole => ?_)
      exact Bool.false_ne_true (hlone.symm.trans (isWhole_lastLine_take hwhole n))

namespace Range

/-- Two offsets inside a text have a range exactly when both have a place. -/
theorem ofSpan_natCast_cases {text : List CodePoint} {m n : Nat} (hm : m ≤ text.length)
    (hn : n ≤ text.length) :
    let range : Range := ⟨Position.behind (text.take m), Position.behind (text.take n)⟩
    let measured := Text.isWhole (Position.lastLine (text.take m)) = true ∧
      Text.isWhole (Position.lastLine (text.take n)) = true
    (measured ∧ range.IsNameable) ∧ ofSpan text ⟨m, n⟩ = .ok range ∨
      ¬(measured ∧ range.IsNameable) ∧
        ∃ cause, ofSpan text ⟨m, n⟩ = .error cause ∧ RangeError.Inside text cause := by
  intro range measured
  rw [ofSpan]
  rcases Position.place_natCast_cases hm with
    ⟨hfirst, hstart, hplace⟩ | ⟨hunplaced, cause, hplace, hinside⟩
  · rw [hplace]
    rcases Position.place_natCast_cases hn with
      ⟨hlast, hstop, hplace⟩ | ⟨hunplaced, cause, hplace, hinside⟩
    · exact Or.inl ⟨⟨⟨hfirst, hlast⟩, hstart, hstop⟩, by rw [hplace]; rfl⟩
    · exact Or.inr ⟨fun h => hunplaced ⟨h.1.2, h.2.2⟩, cause, by rw [hplace]; rfl, hinside⟩
  · exact Or.inr ⟨fun h => hunplaced ⟨h.1.1, h.2.1⟩, cause, by rw [hplace]; rfl, hinside⟩

end Range

namespace Diagnostic

/-- The numbers of an entry are its range as they stand, unless they are too large. -/
theorem plainRange_cases (line column length : Nat) :
    let range : Range := ⟨⟨line, column⟩, ⟨line, column + length⟩⟩
    range.IsNameable ∧ plainRange line column length = .ok range ∨
      ¬range.IsNameable ∧ ∃ cause, plainRange line column length = .error cause := by
  intro range
  rw [plainRange]
  rcases range.start.check_cases with ⟨hstart, hcheck⟩ | ⟨hstart, cause, hcheck⟩
  · rw [hcheck]
    rcases range.stop.check_cases with ⟨hstop, hcheck⟩ | ⟨hstop, cause, hcheck⟩
    · exact Or.inl ⟨⟨hstart, hstop⟩, by rw [hcheck]; rfl⟩
    · exact Or.inr ⟨fun hnameable => hstop hnameable.2, cause, by rw [hcheck]; rfl⟩
  · exact Or.inr ⟨fun hnameable => hstart hnameable.1, cause, by rw [hcheck]; rfl⟩

/-- The range of an entry is where it lies, if it can be shown there. -/
theorem entryRange_cases (entry : ReportEntry) (text : List CodePoint) :
    entry.IsPlaceable text ∧ entryRange entry (some text) = .ok (entry.extent text) ∨
      ¬entry.IsPlaceable text ∧ ∃ cause, entryRange entry (some text) = .error cause ∧
        RangeError.Inside text cause := by
  rw [entryRange, ReportEntry.IsPlaceable, ReportEntry.IsMeasured, ReportEntry.extent]
  by_cases hline : entry.line - 1 < lineCount text
  · have hstop := lineStop_le hline
    have hfirst : entry.first text ≤ text.length := Nat.le_trans (Nat.min_le_right _ _) hstop
    have hlast : entry.last text ≤ text.length := Nat.le_trans (Nat.min_le_right _ _) hstop
    simp only [hline, if_true, if_neg (Nat.not_le.mpr hline), forall_const]
    exact Range.ofSpan_natCast_cases hfirst hlast
  · simp only [hline, if_false, if_pos (Nat.not_lt.mp hline), false_implies, true_and]
    rcases plainRange_cases (entry.line - 1) (entry.column - 1) entry.length with
      ⟨hnameable, hrange⟩ | ⟨hlarge, cause, hrange⟩
    · exact Or.inl ⟨hnameable, by rw [hrange]; rfl⟩
    · refine Or.inr ⟨hlarge, .coordinate cause, ?_, .coordinate cause⟩
      rw [hrange]
      rfl

/-- What an entry says about the text in which it lies. -/
def about (text : List CodePoint) (entry : ReportEntry) : Diagnostic :=
  ⟨entry.extent text, entry.message, .ofWord entry.severity⟩

/-- An error text can be told about a text: its numerals can be converted, and each entry can
be shown in the text. -/
def Tellable (report text : List CodePoint) : Prop :=
  ∃ entries, ErrorReport.parse report = .ok entries ∧ ∀ entry ∈ entries, entry.IsPlaceable text

theorem isMeasured_of_isWhole {text : List CodePoint} (hwhole : Text.isWhole text = true)
    (entry : ReportEntry) : entry.IsMeasured text := fun _ =>
  ⟨Position.isWhole_lastLine_take hwhole _, Position.isWhole_lastLine_take hwhole _⟩

/-- In a text that is not too long only entries on no line of it can lie too far. -/
theorem tellable_iff {text : List CodePoint} (hlength : unitLength text ≤ Position.maxCoordinate)
    (report : List CodePoint) :
    Tellable report text ↔
      ErrorReport.Converts report ∧ ∀ entries, ErrorReport.parse report = .ok entries →
        ∀ entry ∈ entries, entry.IsMeasured text ∧
          (lineCount text ≤ entry.line - 1 → entry.line - 1 ≤ Position.maxCoordinate ∧
            entry.column - 1 + entry.length ≤ Position.maxCoordinate) := by
  have hplace : ∀ entry : ReportEntry, entry.IsPlaceable text ↔ entry.IsMeasured text ∧
      (lineCount text ≤ entry.line - 1 → entry.line - 1 ≤ Position.maxCoordinate ∧
        entry.column - 1 + entry.length ≤ Position.maxCoordinate) := by
    intro entry
    rw [ReportEntry.IsPlaceable, ReportEntry.extent]
    refine and_congr_right fun _ => ?_
    by_cases hline : entry.line - 1 < lineCount text
    · rw [if_pos hline]
      exact iff_of_true ⟨Position.isNameable_behind_take hlength _,
        Position.isNameable_behind_take hlength _⟩ fun hout => absurd hline (Nat.not_lt.mpr hout)
    · simp only [if_neg hline, Range.IsNameable, Position.IsNameable, Nat.not_lt.mp hline,
        forall_const]
      omega
  simp only [Tellable, ← ErrorReport.exists_parse_iff, hplace]
  constructor
  · rintro ⟨entries, hparse, hentries⟩
    refine ⟨⟨entries, hparse⟩, fun others hothers => ?_⟩
    obtain rfl := Except.ok.inj (hparse.symm.trans hothers)
    exact hentries
  · rintro ⟨⟨entries, hparse⟩, hentries⟩
    exact ⟨entries, hparse, hentries entries hparse⟩

/-- An entry becomes what it says, unless it cannot be shown. -/
theorem mapError_ofEntry_cases (entry : ReportEntry) (text : List CodePoint) :
    entry.IsPlaceable text ∧
        (ofEntry entry (some text)).mapError ReportError.range = .ok (about text entry) ∨
      ¬entry.IsPlaceable text ∧ ∃ cause,
        (ofEntry entry (some text)).mapError ReportError.range = .error (.range cause) ∧
          RangeError.Inside text cause := by
  rw [ofEntry]
  rcases entryRange_cases entry text with ⟨hplaceable, hrange⟩ | ⟨hunplaced, cause, hrange, hinside⟩
  · exact Or.inl ⟨hplaceable, by rw [hrange]; rfl⟩
  · exact Or.inr ⟨hunplaced, cause, by rw [hrange]; rfl, hinside⟩

/-- Why an error text gives no diagnostics of a text: a value is too large, or the text holds
a lone surrogate. -/
def FailsIn (text : List CodePoint) (fault : Fault) : Prop :=
  fault.kind = "ValueError" ∨ fault.kind = "UnicodeEncodeError" ∧ Text.isWhole text = false

theorem failsIn_of_inside {text : List CodePoint} {cause : RangeError}
    (hinside : RangeError.Inside text cause) :
    FailsIn text (Fault.ofReportError (.range cause)) := by
  cases hinside with
  | coordinate cause => exact Or.inl rfl
  | encoding cause hlone => exact Or.inr ⟨rfl, hlone⟩

/-- An error text that can be told gives one diagnostic for each entry, and any other one
fails for a value or for a lone surrogate. -/
theorem ofReport_cases (report text : List CodePoint) :
    (∃ entries, ErrorReport.parse report = .ok entries ∧
      (∀ entry ∈ entries, entry.IsPlaceable text) ∧
      ofReport report (some text) = .ok (entries.map (about text))) ∨
    ¬Tellable report text ∧ ∃ cause, ofReport report (some text) = .error cause ∧
      FailsIn text (Fault.ofReportError cause) := by
  rcases hparse : ErrorReport.parse report with tooLong | entries
  · refine Or.inr ⟨?_, .numeral tooLong, by rw [ofReport, hparse]; rfl, Or.inl rfl⟩
    rintro ⟨entries, hentries, -⟩
    exact nomatch hparse.symm.trans hentries
  · have hreport : ofReport report (some text) = entries.mapM fun entry =>
        (ofEntry entry (some text)).mapError ReportError.range := by
      rw [ofReport, hparse]
      rfl
    rw [hreport]
    rcases hgiven : entries.mapM (fun entry => (ofEntry entry (some text)).mapError
      ReportError.range) with cause | diagnostics
    · obtain ⟨entry, hentry, hstep⟩ := exists_of_mapM_error hgiven
      rcases mapError_ofEntry_cases entry text with ⟨-, hok⟩ | ⟨hunplaced, found, herror, hinside⟩
      · exact nomatch hok.symm.trans hstep
      · obtain rfl := Except.error.inj (herror.symm.trans hstep)
        refine Or.inr ⟨?_, _, rfl, failsIn_of_inside hinside⟩
        rintro ⟨others, hothers, hplaceable⟩
        obtain rfl := Except.ok.inj (hparse.symm.trans hothers)
        exact hunplaced (hplaceable entry hentry)
    · have hentries : ∀ entry ∈ entries, entry.IsPlaceable text ∧
          (ofEntry entry (some text)).mapError ReportError.range = .ok (about text entry) := by
        intro entry hentry
        obtain ⟨diagnostic, hok⟩ := exists_mapM_iff.mp ⟨_, hgiven⟩ entry hentry
        rcases mapError_ofEntry_cases entry text with hplaceable | ⟨-, cause, herror, -⟩
        · exact hplaceable
        · exact nomatch herror.symm.trans hok
      refine Or.inl ⟨entries, rfl, fun entry hentry => (hentries entry hentry).1, ?_⟩
      exact hgiven.symm.trans (mapM_eq_ok_map fun entry hentry => (hentries entry hentry).2)

end Diagnostic

/-- Whether the fault carries an error text. -/
def Fault.isReport : Fault → Bool
  | .parse _ | .analysis _ _ => true
  | _ => false

/-- The empty error text says nothing. -/
theorem Analysis.ofReport_empty (tree : Option Tree) (text : Text) :
    Analysis.ofReport tree "" text = .ok ⟨tree, []⟩ := by
  have hempty : (Text.ofString "").points = [] := rfl
  rw [Analysis.ofReport, Diagnostic.ofReport, ErrorReport.parse, hempty,
    ErrorReport.withoutColours]
  rfl

namespace Host

/-- An analyzer whose steps fail with an error text, or not at all. -/
structure FailsByReport (host : Host) : Prop where
  parse : ∀ calls text filename fault,
    host.parse calls text filename = .error fault → fault.isReport = true
  analyze : ∀ calls tree root fault,
    host.analyze calls tree root = .error fault → fault.isReport = true

section

variable (host : Host) (moment : Moment) (path : Path) (text : Text)

/-- The tree and the error text that an analysis ends with; a text that is analyzed well
has an empty one. -/
inductive Finds : Option Tree → Text → Prop where
  | analyzed {parsed tree : Option Tree}
      (hparse : host.parse moment.calls text path.text = .ok parsed)
      (hanalyze : host.analyze (moment.calls ++ [.parse text path.text]) parsed
        (moment.root.getD path.parent) = .ok tree) : Finds tree ""
  | unparsed {report : Text}
      (hparse : host.parse moment.calls text path.text = .error (.parse report)) :
      Finds none report
  | unresolved {parsed tree : Option Tree} {report : Text}
      (hparse : host.parse moment.calls text path.text = .ok parsed)
      (hanalyze : host.analyze (moment.calls ++ [.parse text path.text]) parsed
        (moment.root.getD path.parent) = .error (.analysis report tree)) : Finds tree report

/-- A step of the analysis that fails as the other step does. -/
inductive Strays : Fault → Prop where
  | parse {report : Text} {tree : Option Tree}
      (hparse : host.parse moment.calls text path.text = .error (.analysis report tree)) :
      Strays (.analysis report tree)
  | analyze {parsed : Option Tree} {report : Text}
      (hparse : host.parse moment.calls text path.text = .ok parsed)
      (hanalyze : host.analyze (moment.calls ++ [.parse text path.text]) parsed
        (moment.root.getD path.parent) = .error (.parse report)) : Strays (.parse report)

end

theorem examine_cases {host : Host} (hhost : host.FailsByReport) (moment : Moment)
    {uri : Text} {path : Path} (hpath : Uri.toPath uri = .ok path) (text : Text) :
    (∃ tree report, host.Finds moment path text tree report ∧
      (host.examine moment.root moment.calls uri text).outcome =
        Analysis.ofReport tree report text) ∨
    ∃ fault, host.Strays moment path text fault ∧
      (host.examine moment.root moment.calls uri text).outcome = .error fault := by
  rw [examine, hpath]
  dsimp only
  rcases hparse : host.parse moment.calls text path.text with fault | parsed
  · have hreport := hhost.parse _ _ _ _ hparse
    cases fault with
    | parse report => exact Or.inl ⟨none, report, .unparsed hparse, rfl⟩
    | analysis report tree => exact Or.inr ⟨_, .parse hparse, rfl⟩
    | _ => exact nomatch hreport
  · dsimp only
    rcases hanalyze : host.analyze (moment.calls ++ [.parse text path.text]) parsed
      (moment.root.getD path.parent) with fault | tree
    · have hreport := hhost.analyze _ _ _ _ hanalyze
      cases fault with
      | parse report => exact Or.inr ⟨_, .analyze hparse hanalyze, by rw [hanalyze]⟩
      | analysis report tree =>
          exact Or.inl ⟨tree, report, .unresolved hparse hanalyze, by rw [hanalyze]⟩
      | _ => exact nomatch hreport
    · exact Or.inl ⟨tree, "", .analyzed hparse hanalyze, by rw [hanalyze, Analysis.ofReport_empty]⟩

end Host

namespace Config

/-- The text of a document has become the latest one, and the editor is told one list for
it, or cannot be told: then the work fails and nothing is told. -/
structure Latest (cfg : Config) (s : Session) (document : Document) (list : List Diagnostic)
    (run : Except Fault Document × Session) : Prop where
  documents : run.2.documents = s.documents.insert document.uri document
  told : (cfg.publishes = true → Diagnostic.AreWhole document.uri list) →
    run.1 = .ok document ∧
      run.2.sent = s.sent ++ if cfg.publishes then [.diagnostics document.uri list] else []
  untold : cfg.publishes = true → ¬Diagnostic.AreWhole document.uri list →
    (∃ cause, run.1 = .error (.ofWrite cause)) ∧ run.2.sent = s.sent

theorem latest_of_told {cfg : Config} {s : Session} {uri : Text} {entry : Entry}
    {run : Except Fault Document × Session}
    (hlist : ∀ diagnostic ∈ entry.analysis.diagnostics, diagnostic.range.IsNameable)
    (hdocuments : run.2.documents = s.documents.insert uri (entry.document uri))
    (houtcome : run.1 = cfg.announced uri entry)
    (hsent : run.2.sent = s.sent ++ cfg.told uri entry.analysis.diagnostics) :
    cfg.Latest s (entry.document uri) entry.analysis.diagnostics run := by
  rw [announced] at houtcome
  rcases cfg.tell_cases hlist with ⟨hwhole, htelling, htold⟩ |
    ⟨⟨hpublishes, hlone⟩, cause, htelling, htold⟩
  · rw [htelling] at houtcome
    rw [htold] at hsent
    exact ⟨hdocuments, fun _ => ⟨houtcome, hsent⟩, fun hp hlone => absurd (hwhole hp) hlone⟩
  · rw [htelling] at houtcome
    rw [htold, List.append_nil] at hsent
    exact ⟨hdocuments, fun hwhole => absurd (hwhole hpublishes) hlone,
      fun _ _ => ⟨⟨cause, houtcome⟩, hsent⟩⟩

/-- What becomes of a text whose analysis ends with a tree and an error text, by whether
that can be told. -/
theorem run_refresh_of_report {cfg : Config} {uri text : Text} {s : Session}
    {tree : Option Tree} {report : Text}
    (hexamine : (cfg.host.examine s.root s.calls uri text).outcome =
      Analysis.ofReport tree report text) :
    let run := (cfg.refresh uri text).run s
    (∃ entries, ErrorReport.parse report.points = .ok entries ∧
      (∀ entry ∈ entries, entry.IsPlaceable text.points) ∧
      cfg.Latest s ⟨uri, text, tree⟩ (entries.map (Diagnostic.about text.points)) run) ∨
    ¬Diagnostic.Tellable report.points text.points ∧
      (∃ fault, run.1 = .error fault ∧ Diagnostic.FailsIn text.points fault) ∧
      run.2.documents = s.documents ∧ run.2.sent = s.sent := by
  have houtcome := cfg.fst_run_refresh uri text s
  have halike := cfg.alike_refresh uri text s
  rw [Host.study, Session.moment, hexamine, Analysis.ofReport] at houtcome halike
  rcases Diagnostic.ofReport_cases report.points text.points with
    ⟨entries, hparse, hentries, hreport⟩ | ⟨hlarge, cause, hreport, hfails⟩
  · rw [hreport] at houtcome halike
    have hlist : ∀ diagnostic ∈ entries.map (Diagnostic.about text.points),
        diagnostic.range.IsNameable :=
      List.forall_mem_map.mpr fun entry hentry => (hentries entry hentry).2
    refine Or.inl ⟨entries, hparse, hentries, ?_⟩
    exact latest_of_told hlist halike.documents houtcome halike.sent
  · rw [hreport] at houtcome halike
    exact Or.inr ⟨hlarge, ⟨_, houtcome, hfails⟩, halike.documents, halike.sent⟩

/-- A text whose analysis ends with an error text that can be told about it becomes the latest
text, with its tree, and the editor is told one list for it, which says of each entry where it
lies; only a lone surrogate in the URI or in the error text can keep this list back.  An error
text that cannot be told about the text leaves the text that was there and tells nothing, and so
does a step of the analysis that fails as the other one does. -/
theorem refresh_keeps_latest_text {cfg : Config} (hhost : cfg.host.FailsByReport) {uri : Text}
    {path : Path} (hpath : Uri.toPath uri = .ok path) (text : Text) (s : Session) :
    let run := (cfg.refresh uri text).run s
    (∃ tree report entries, cfg.host.Finds s.moment path text tree report ∧
      ErrorReport.parse report.points = .ok entries ∧
      (∀ entry ∈ entries, entry.IsPlaceable text.points) ∧
      cfg.Latest s ⟨uri, text, tree⟩ (entries.map (Diagnostic.about text.points)) run ∧
      (Text.isWhole uri.points = true → Text.isWhole report.points = true →
        Diagnostic.AreWhole uri (entries.map (Diagnostic.about text.points)))) ∨
    (∃ tree report, cfg.host.Finds s.moment path text tree report ∧
      ¬Diagnostic.Tellable report.points text.points ∧
      (∃ fault, run.1 = .error fault ∧ Diagnostic.FailsIn text.points fault) ∧
      run.2.documents = s.documents ∧ run.2.sent = s.sent) ∨
    ∃ fault, cfg.host.Strays s.moment path text fault ∧ run.1 = .error fault ∧
      run.2.documents = s.documents ∧ run.2.sent = s.sent := by
  rcases Host.examine_cases hhost s.moment hpath text with
    ⟨tree, report, hfinds, hexamine⟩ | ⟨fault, hstrays, hexamine⟩
  · rcases run_refresh_of_report hexamine with ⟨entries, hparse, hentries, hlatest⟩ | hdropped
    · refine Or.inl ⟨tree, report, entries, hfinds, hparse, hentries, hlatest, ?_⟩
      intro huri hreport
      refine ⟨huri, List.forall_mem_map.mpr fun entry hentry => ?_⟩
      exact Text.isWhole_of_subset (ErrorReport.subset_of_parse hparse hentry) hreport
    · exact Or.inr (Or.inl ⟨tree, report, hfinds, hdropped⟩)
  · have houtcome := cfg.fst_run_refresh uri text s
    have halike := cfg.alike_refresh uri text s
    rw [Host.study, hexamine] at houtcome halike
    exact Or.inr (Or.inr ⟨fault, hstrays, houtcome, halike.documents, halike.sent⟩)

/-- A host whose parser ends with the same error text for every text. -/
def reportingHost (report : Text) : Host where
  parse := fun _ _ _ => .error (.parse report)
  analyze := fun _ tree _ => .ok tree
  read := fun _ uri => .error (.other "LookupError" ("no such document: " ++ uri))

theorem failsByReport_reportingHost (report : Text) : (reportingHost report).FailsByReport where
  parse := by
    intro calls text filename fault hparse
    obtain rfl := Except.error.inj hparse
    rfl
  analyze := by
    intro calls tree root fault hanalyze
    exact nomatch hanalyze

theorem finds_reportingHost {report : Text} {moment : Moment} {path : Path} {text : Text}
    {tree : Option Tree} {other : Text}
    (hfinds : (reportingHost report).Finds moment path text tree other) :
    tree = none ∧ other = report := by
  cases hfinds with
  | analyzed hparse => exact nomatch hparse
  | unparsed hparse => exact ⟨rfl, (Fault.parse.inj (Except.error.inj hparse)).symm⟩
  | unresolved hparse => exact nomatch hparse

theorem not_strays_reportingHost {report : Text} {moment : Moment} {path : Path}
    {text : Text} {fault : Fault} :
    ¬(reportingHost report).Strays moment path text fault := by
  rintro (hparse | hparse)
  · exact nomatch hparse
  · exact nomatch hparse

theorem toPath_reported : Uri.toPath "file:///a.nelua" = .ok (Path.ofText "/a.nelua") :=
  eq_ok_of_toOption (by decide +kernel)

theorem refresh_keeps_text_with_error :
    let cfg : Config := { host := reportingHost "a.nelua:1:1: error: near" }
    let uri : Text := "file:///a.nelua"
    cfg.host.FailsByReport ∧ Uri.toPath uri = .ok (Path.ofText "/a.nelua") ∧
      ((cfg.refresh uri "x").run cfg.start).1 = .ok ⟨uri, "x", none⟩ ∧
      ((cfg.refresh uri "x").run cfg.start).2.documents =
        cfg.start.documents.insert uri ⟨uri, "x", none⟩ ∧
      ((cfg.refresh uri "x").run cfg.start).2.sent =
        [.diagnostics uri [⟨⟨⟨0, 0⟩, ⟨0, 1⟩⟩, "near", .error⟩]] := by
  intro cfg uri
  have hhost : cfg.host.FailsByReport := failsByReport_reportingHost _
  have hpath : Uri.toPath uri = .ok (Path.ofText "/a.nelua") := toPath_reported
  have hentries : ErrorReport.parse (Text.ofString "a.nelua:1:1: error: near").points =
      .ok [⟨1, 1, 1, "error", "near"⟩] := eq_ok_of_toOption (by decide +kernel)
  refine ⟨hhost, hpath, ?_⟩
  rcases refresh_keeps_latest_text hhost hpath "x" cfg.start with
    ⟨tree, report, entries, hfinds, hparse, -, hlatest, hwhole⟩ |
    ⟨tree, report, hfinds, hlarge, -⟩ | ⟨fault, hstrays, -⟩
  · obtain ⟨rfl, rfl⟩ := finds_reportingHost hfinds
    obtain rfl := Except.ok.inj (hentries.symm.trans hparse)
    have htold := hlatest.told fun _ =>
      hwhole (Text.isWhole_ofString _) (Text.isWhole_ofString _)
    exact ⟨htold.1, hlatest.documents, htold.2⟩
  · obtain ⟨rfl, rfl⟩ := finds_reportingHost hfinds
    exact absurd ⟨_, hentries, List.forall_mem_singleton.mpr (by decide +kernel)⟩ hlarge
  · exact absurd hstrays not_strays_reportingHost

/-- Not every text that comes becomes the latest one: a header that names a line too far
away leaves the text that was there, and the editor is told nothing. -/
theorem far_entry_drops_text :
    let cfg : Config := { host := reportingHost "a.nelua:2147483649:1: error: too far" }
    let uri : Text := "file:///a.nelua"
    cfg.host.FailsByReport ∧ Uri.toPath uri = .ok (Path.ofText "/a.nelua") ∧
      ∀ s : Session, (∃ fault, ((cfg.refresh uri "x").run s).1 = .error fault ∧
          fault.kind = "ValueError") ∧
        ((cfg.refresh uri "x").run s).2.documents = s.documents ∧
        ((cfg.refresh uri "x").run s).2.sent = s.sent := by
  intro cfg uri
  have hhost : cfg.host.FailsByReport := failsByReport_reportingHost _
  have hpath : Uri.toPath uri = .ok (Path.ofText "/a.nelua") := toPath_reported
  have hentries : ErrorReport.parse
      (Text.ofString "a.nelua:2147483649:1: error: too far").points =
      .ok [⟨2147483649, 1, 1, "error", "too far"⟩] := eq_ok_of_toOption (by decide +kernel)
  have hlarge : ¬Diagnostic.Tellable
      (Text.ofString "a.nelua:2147483649:1: error: too far").points (Text.ofString "x").points := by
    rintro ⟨entries, hparse, hnameable⟩
    obtain rfl := Except.ok.inj (hentries.symm.trans hparse)
    exact absurd (hnameable _ (List.mem_singleton_self _)) (by decide +kernel)
  refine ⟨hhost, hpath, fun s => ?_⟩
  rcases Host.examine_cases hhost s.moment hpath "x" with
    ⟨tree, report, hfinds, hexamine⟩ | ⟨fault, hstrays, -⟩
  · obtain ⟨rfl, rfl⟩ := finds_reportingHost hfinds
    rcases run_refresh_of_report hexamine with
      ⟨entries, hparse, hplaceable, -⟩ | ⟨-, ⟨fault, hfault, hfails⟩, hdropped⟩
    · exact absurd ⟨entries, hparse, hplaceable⟩ hlarge
    · rcases hfails with hvalue | ⟨-, hlone⟩
      · exact ⟨⟨fault, hfault, hvalue⟩, hdropped⟩
      · exact absurd (hlone.symm.trans (Text.isWhole_ofString "x")) Bool.false_ne_true
  · exact absurd hstrays not_strays_reportingHost

end Config

end EditorBridge
