/-
Where diagnostics lie.  An error text gives its diagnostics in order, one for each entry, and
the range of an entry on a line of the text is read back as offsets of that line: it is the
range of a node that spans the same characters.  Only the numbers of an entry on no line, and
numerals too long to be converted, leave an error text without diagnostics.
-/
import EditorBridge.Proofs.RenderedReports
import EditorBridge.Proofs.ReportPlaces
import Mathlib.Data.List.Forall2
import Mathlib.Data.List.TakeWhile

namespace EditorBridge

/-- A line of a text runs from one offset to another: it has so many newlines before it, none
inside, and lies between newlines or the ends of the text. -/
structure IsLine (text : List CodePoint) (line start stop : Nat) : Prop where
  start_le : start ≤ stop
  stop_le : stop ≤ text.length
  count_before : (text.take start).count (.char '\n') = line
  no_newline : (.char '\n') ∉ (text.take stop).drop start
  before : ∀ c ∈ (text.take start).getLast?, c = .char '\n'
  behind : ∀ c ∈ (text.drop stop).head?, c = .char '\n'

namespace Position

/-- At the start of a line a text has ended with a newline, or not begun. -/
theorem getLast?_of_behind {front : List CodePoint} (hfront : (behind front).character = 0) :
    ∀ c ∈ front.getLast?, c = .char '\n' := by
  intro c hc
  obtain ⟨init, rfl⟩ := List.getLast?_eq_some_iff.mp hc
  rw [behind_append, List.foldl_cons, List.foldl_nil, step] at hfront
  by_cases hnewline : c = .char '\n'
  · exact hnewline
  · have hwidth := unitWidth_pos c
    simp only [if_neg hnewline] at hfront
    omega

theorem count_of_behind {front : List CodePoint} {line : Nat}
    (hfront : (behind front).line = line) :
    front.count (.char '\n') = line := by
  rwa [behind, line_foldl_step, Nat.zero_add] at hfront

end Position

theorem isLine_append {front run rest : List CodePoint} {line : Nat}
    (hfront : Position.behind front = ⟨line, 0⟩) (hrun : (.char '\n') ∉ run)
    (hrest : ∀ c ∈ rest.head?, c = .char '\n') :
    IsLine (front ++ (run ++ rest)) line front.length (front.length + run.length) where
  start_le := Nat.le_add_right _ _
  stop_le := by
    simp only [List.length_append]
    omega
  count_before := by
    rw [List.take_left]
    exact Position.count_of_behind (congrArg Position.line hfront)
  no_newline := by
    rwa [← List.append_assoc, ← List.length_append, List.take_left, List.drop_left]
  before := by
    rw [List.take_left]
    exact Position.getLast?_of_behind (congrArg Position.character hfront)
  behind := by
    rwa [← List.append_assoc, ← List.length_append, List.drop_left]

theorem isLine_lineStart {text : List CodePoint} {line : Nat} (hline : line < lineCount text) :
    IsLine text line (lineStart text line) (lineStop text line) := by
  obtain ⟨front, hfront, hlength, hbehind⟩ := Position.behind_lineStart (Nat.le_of_lt_succ hline)
  have hrun : (.char '\n') ∉ lineText text line := by
    intro hmem
    have hchar := List.mem_takeWhile_imp hmem
    simp at hchar
  have hrest : ∀ c ∈ ((dropLines line text).dropWhile (· != .char '\n')).head?, c = .char '\n' := by
    intro c hc
    have hhead := List.head?_dropWhile_not (· != .char '\n') (dropLines line text)
    rw [Option.mem_def.mp hc] at hhead
    simpa using hhead
  have hisLine := isLine_append hbehind hrun hrest
  rwa [lineText, List.takeWhile_append_dropWhile, ← hfront, hlength] at hisLine

/-- All places of a line are on that line. -/
theorem IsLine.line_behind {text : List CodePoint} {line start stop n : Nat}
    (hisLine : IsLine text line start stop) (hstart : start ≤ n) (hstop : n ≤ stop) :
    (Position.behind (text.take n)).line = line := by
  have hinside : (.char '\n') ∉ (text.take n).drop start := by
    intro hmem
    refine hisLine.no_newline (List.mem_of_mem_take (i := n - start) ?_)
    rwa [← List.drop_take, List.take_take, Nat.min_eq_left hstop]
  -- the newlines in front of the place are those in front of the line
  rw [Position.behind, Position.line_foldl_step, Nat.zero_add,
    ← Text.take_append_drop_take hstart text, List.count_append, hisLine.count_before,
    List.count_eq_zero.mpr hinside, Nat.add_zero]

/-- A range on a line of the text: from the column of the entry, or the end of the line when
that comes first, over as many characters as the entry is long, but not past the end of the
line.  Both ends are read back as these offsets, and a node that spans them has the same
range. -/
structure ReportEntry.LiesOn (entry : ReportEntry) (text : List CodePoint) (range : Range)
    (start stop first last : Nat) : Prop where
  isLine : IsLine text (entry.line - 1) start stop
  first_eq : first = min (start + (entry.column - 1)) stop
  last_eq : last = min (first + entry.length) stop
  start_le : start ≤ first
  first_le : first ≤ last
  last_le : last ≤ stop
  start_line : range.start.line = entry.line - 1
  stop_line : range.stop.line = entry.line - 1
  marks : range.Marks text ⟨first, last⟩
  node : ∀ node : Node, node.span = some ⟨first, last⟩ → node.range text = .ok range

/-- A diagnostic that tells an entry: its message, what its word for the severity stands for,
and the place on its line, or its numbers as they stand when the text has no such line. -/
structure Diagnostic.Tells (text : List CodePoint) (entry : ReportEntry) (diagnostic : Diagnostic) :
    Prop where
  message : diagnostic.message = entry.message
  severity : diagnostic.severity = .ofWord entry.severity
  on_line : entry.line - 1 < lineCount text →
    ∃ start stop first last, entry.LiesOn text diagnostic.range start stop first last
  on_none : lineCount text ≤ entry.line - 1 →
    diagnostic.range = ⟨⟨entry.line - 1, entry.column - 1⟩,
      ⟨entry.line - 1, entry.column - 1 + entry.length⟩⟩

namespace Diagnostic

theorem liesOn_extent {text : List CodePoint} {entry : ReportEntry}
    (hplaceable : entry.IsPlaceable text) (hline : entry.line - 1 < lineCount text) :
    entry.LiesOn text (entry.extent text) (lineStart text (entry.line - 1))
      (lineStop text (entry.line - 1)) (entry.first text) (entry.last text) := by
  have hisLine := isLine_lineStart hline
  have hstart : lineStart text (entry.line - 1) ≤ entry.first text :=
    Nat.le_min.mpr ⟨Nat.le_add_right _ _, hisLine.start_le⟩
  have hfirst : entry.first text ≤ lineStop text (entry.line - 1) := Nat.min_le_right _ _
  have hlast : entry.last text ≤ lineStop text (entry.line - 1) := Nat.min_le_right _ _
  have hordered : entry.first text ≤ entry.last text :=
    Nat.le_min.mpr ⟨Nat.le_add_right _ _, hfirst⟩
  have hextent : Range.ofSpan text ⟨entry.first text, entry.last text⟩ =
      .ok (entry.extent text) := by
    have hnameable := hplaceable.2
    rw [ReportEntry.extent, if_pos hline] at hnameable ⊢
    rcases Range.ofSpan_natCast_cases (Nat.le_trans hfirst hisLine.stop_le)
      (Nat.le_trans hlast hisLine.stop_le) with ⟨-, hrange⟩ | ⟨hunplaced, -⟩
    · exact hrange
    · exact absurd ⟨hplaceable.1 hline, hnameable⟩ hunplaced
  exact {
    isLine := hisLine
    first_eq := rfl
    last_eq := rfl
    start_le := hstart
    first_le := hordered
    last_le := hlast
    start_line := by
      rw [ReportEntry.extent, if_pos hline]
      exact hisLine.line_behind hstart hfirst
    stop_line := by
      rw [ReportEntry.extent, if_pos hline]
      exact hisLine.line_behind (Nat.le_trans hstart hordered) hlast
    marks := Range.marks_of_ofSpan hextent (Int.ofNat_le.mpr hordered)
    node := by
      intro node hnode
      rw [Node.range, hnode]
      exact hextent }

theorem tells_about {text : List CodePoint} {entry : ReportEntry}
    (hplaceable : entry.IsPlaceable text) : Tells text entry (about text entry) where
  message := rfl
  severity := rfl
  on_line := fun hline => ⟨_, _, _, _, liesOn_extent hplaceable hline⟩
  on_none := fun hnone => by
    rw [about, ReportEntry.extent, if_neg (Nat.not_lt.mpr hnone)]

/-- An error text has diagnostics about a text unless a numeral of it is too long, an entry
on no line of the text has numbers that are too large, or what stands on its line in front of
an entry holds a lone surrogate.  They are one for each entry, in the order reported, and the
ranges of entries on lines of the text agree with its positions. -/
theorem ranges_agree_with_positions {text : List CodePoint}
    (hlength : unitLength text ≤ Position.maxCoordinate) (report : List CodePoint) :
    ((∃ diagnostics, ofReport report (some text) = .ok diagnostics) ↔
      ErrorReport.Converts report ∧ ∀ entries, ErrorReport.parse report = .ok entries →
        ∀ entry ∈ entries, entry.IsMeasured text ∧
          (lineCount text ≤ entry.line - 1 → entry.line - 1 ≤ Position.maxCoordinate ∧
            entry.column - 1 + entry.length ≤ Position.maxCoordinate)) ∧
    (Text.isWhole text = true → ∀ entry : ReportEntry, entry.IsMeasured text) ∧
    ∀ diagnostics, ofReport report (some text) = .ok diagnostics →
      ∃ entries, ErrorReport.parse report = .ok entries ∧
        List.Forall₂ (Tells text) entries diagnostics := by
  rw [← tellable_iff hlength]
  rcases ofReport_cases report text with
    ⟨entries, hparse, hentries, hreport⟩ | ⟨hlarge, cause, hreport, -⟩
  · refine ⟨iff_of_true ⟨_, hreport⟩ ⟨entries, hparse, hentries⟩, isMeasured_of_isWhole, ?_⟩
    intro diagnostics hgiven
    obtain rfl := Except.ok.inj (hreport.symm.trans hgiven)
    refine ⟨entries, hparse, ?_⟩
    rw [List.forall₂_map_right_iff, List.forall₂_same]
    exact fun entry hentry => tells_about (hentries entry hentry)
  · rw [hreport]
    exact ⟨iff_of_false (fun ⟨_, hgiven⟩ => nomatch hgiven) hlarge, isMeasured_of_isWhole,
      fun _ hgiven => nomatch hgiven⟩

/-- An entry behind a wide character, longer than what is left of its line. -/
theorem ranges_agree_with_positions_behind_wide :
    let text := (Text.ofString "a😀b\nx").points
    let report := (Text.ofString "f:1:3: error: m\n s\n^~~~~\n").points
    let found : Diagnostic := ⟨⟨⟨0, 3⟩, ⟨0, 4⟩⟩, "m", .error⟩
    unitLength text ≤ Position.maxCoordinate ∧ ofReport report (some text) = .ok [found] ∧
      Tells text ⟨1, 3, 5, "error", "m"⟩ found := by
  intro text report found
  have hlength : unitLength text ≤ Position.maxCoordinate := by decide +kernel
  have hfound : ofReport report (some text) = .ok [found] := eq_ok_of_toOption (by decide +kernel)
  have hentries : ErrorReport.parse report = .ok [⟨1, 3, 5, "error", "m"⟩] :=
    eq_ok_of_toOption (by decide +kernel)
  obtain ⟨entries, hparse, htells⟩ := (ranges_agree_with_positions hlength report).2.2 _ hfound
  obtain rfl := Except.ok.inj (hentries.symm.trans hparse)
  exact ⟨hlength, hfound, (List.forall₂_cons.mp htells).1⟩

/-- It is not enough that all records are on lines of the text: a column of too many digits
leaves an error text without diagnostics. -/
theorem records_on_lines_may_fail :
    ¬∀ (records : List ErrorReport.Record) (colours : Nat → List ErrorReport.Colour)
        (text : List CodePoint), Position.IsMeasurable text →
      (∀ record ∈ records, record.line - 1 < lineCount text) →
      ∃ diagnostics, ofReport (ErrorReport.painted colours (ErrorReport.render records))
        (some text) = .ok diagnostics := by
  intro hall
  have hon : ∀ record ∈ [ErrorReport.bareRecord ErrorReport.farColumn],
      record.line - 1 < lineCount [.char 'x'] := List.forall_mem_singleton.mpr (by
    rw [ErrorReport.bareRecord]
    decide)
  obtain ⟨diagnostics, hgiven⟩ := hall _ (fun _ => []) [.char 'x'] (by decide +kernel) hon
  rcases ofReport_cases (ErrorReport.painted (fun _ => []) (ErrorReport.render
      [ErrorReport.bareRecord ErrorReport.farColumn])) [.char 'x'] with
    ⟨entries, hparse, -⟩ | ⟨-, cause, hreport, -⟩
  · exact ErrorReport.read_bareRecord_ne_ok ErrorReport.not_isConvertible_farColumn _ entries hparse
  · exact nomatch hreport.symm.trans hgiven

end Diagnostic

end EditorBridge
