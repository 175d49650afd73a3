/-
Error texts are read back.  A record is written as a header, maybe a line of the source and
maybe an underline, and a list of records one behind the other, with colours at any places.
What is read are the records in their order, each with the length of its own underline,
unless a line or a column has more digits than are converted.
-/
import EditorBridge.Proofs.Decimal
import EditorBridge.Proofs.Outcomes
import EditorBridge.Proofs.ReportGrammar

namespace EditorBridge

namespace ErrorReport

/-- A character that begins no escape and ends no line. -/
def IsPlain (c : CodePoint) : Prop := c ≠ .char '\x1b' ∧ c.isIn Text.isLineBreak = false

instance (c : CodePoint) : Decidable (IsPlain c) :=
  inferInstanceAs (Decidable (c ≠ .char '\x1b' ∧ c.isIn Text.isLineBreak = false))

/-- A line of the source, which is neither a header nor an underline. -/
structure Source where
  text : List CodePoint
  not_header : ¬IsHeader text
  not_underline : ¬IsUnderline text
  isPlain : ∀ c ∈ text, IsPlain c

/-- The underline of a record: blanks, a caret and tildes. -/
structure Underline where
  indent : List CodePoint
  tildes : Nat
  isBlank : ∀ c ∈ indent, ErrorReport.isBlank c = true ∧ c.isIn Text.isLineBreak = false

namespace Underline

def text (underline : Underline) : List CodePoint :=
  underline.indent ++ .char '^' :: List.replicate underline.tildes (.char '~')

def width (underline : Underline) : Nat := underline.tildes + 1

end Underline

/-- A record of an error text.  No colon in its file has a digit of any script behind it, its
severity is made of small letters with spaces between them, and its message has no blanks
around it. -/
structure Record where
  file : List CodePoint
  line : Nat
  column : Nat
  severity : List Char
  message : List CodePoint
  source : Option Source
  underline : Option Underline
  file_colon : ∀ before c after, file = before ++ .char ':' :: c :: after → isDigit c = false
  severity_first : ∃ c rest, severity = c :: rest ∧ c.isLower = true
  severity_char : ∀ c ∈ severity, c.isLower = true ∨ c = ' '
  severity_last : severity.getLast? ≠ some ' '
  message_first : ∀ c ∈ message.head?, isBlank c = false
  message_last : ∀ c ∈ message.getLast?, isBlank c = false
  isPlain_file : ∀ c ∈ file, IsPlain c
  isPlain_message : ∀ c ∈ message, IsPlain c

namespace Record

def header (record : Record) : List CodePoint :=
  record.file ++ .char ':' :: (Text.glyphs (Text.decimal record.line) ++ .char ':' ::
    (Text.glyphs (Text.decimal record.column) ++ .char ':' :: ([.char ' '] ++
      (Text.glyphs record.severity ++ .char ':' :: .char ' ' :: record.message))))

/-- The lines behind the header: that of the source, and the underline. -/
def following (record : Record) : List (List CodePoint) :=
  (record.source.map Source.text).toList ++ (record.underline.map Underline.text).toList

/-- The lines that a record is written in. -/
def lines (record : Record) : List (List CodePoint) := record.header :: record.following

/-- What a record says; without an underline it is one character long. -/
def entry (record : Record) : ReportEntry where
  line := record.line
  column := record.column
  length := (record.underline.map Underline.width).getD 1
  severity := String.ofList record.severity
  message := ⟨record.message⟩

end Record

/-- The error text of some records: their lines, each ended by a line feed. -/
def render (records : List Record) : List CodePoint :=
  (records.flatMap Record.lines).flatMap (· ++ [(.char '\n')])

theorem isAlpha_of_isLower {c : Char} (hc : c.isLower = true) : c.isAlpha = true :=
  (Text.isAlpha_iff c).mpr (Or.inr ((Text.isLower_iff c).mp hc))

theorem toLower_of_isLower {c : Char} (hc : c.isLower = true) : c.toLower = c := by
  rw [Text.isLower_iff] at hc
  refine dif_neg (c := 65 ≤ c.val ∧ c.val ≤ 90) ?_
  rintro ⟨-, hcapital⟩
  have hcapital : c.toNat ≤ 90 := by simpa [UInt32.le_iff_toNat_le] using hcapital
  omega

theorem isPlain_of_isLower {c : Char} (hc : c.isLower = true) : IsPlain (.char c) := by
  rw [Text.isLower_iff] at hc
  constructor
  · intro hescape
    obtain rfl := CodePoint.char.inj hescape
    exact absurd hc (by decide)
  · simp only [CodePoint.isIn_char, Text.isLineBreak, Bool.or_eq_false_iff, Bool.and_eq_false_iff,
      decide_eq_false_iff_not, beq_eq_false_iff_ne]
    omega

/-- What holds of every digit holds of every code point of a numeral. -/
theorem forall_mem_numeral {p : CodePoint → Prop} (hp : ∀ d < 10, p (.char (Text.digitChar d)))
    (n : Nat) : ∀ c ∈ Text.glyphs (Text.decimal n), p c :=
  List.forall_mem_map.mpr (Text.forall_mem_decimal hp n)

theorem isNumeral_decimal (n : Nat) : IsNumeral (Text.glyphs (Text.decimal n)) := by
  obtain ⟨c, cs, hcons, -⟩ := Text.decimal_eq_cons n
  refine ⟨?_, forall_mem_numeral (by decide) n⟩
  rw [hcons]
  exact List.cons_ne_nil _ _

theorem isPlain_decimal (n : Nat) : ∀ c ∈ Text.glyphs (Text.decimal n), IsPlain c :=
  forall_mem_numeral (by decide) n

namespace Underline

theorem underline?_text (underline : Underline) :
    underline? underline.text = some underline.width := by
  have htext := underline?_eq_some (fun c hc => (underline.isBlank c hc).1) underline.tildes
    (List.forall_mem_nil _)
  rw [List.append_nil] at htext
  exact htext

theorem mem_text {underline : Underline} {c : CodePoint} (hc : c ∈ underline.text) :
    c ∈ underline.indent ∨ c = .char '^' ∨ c = .char '~' := by
  rcases List.mem_append.mp hc with hindent | hmark
  · exact Or.inl hindent
  · rcases List.mem_cons.mp hmark with rfl | htilde
    · exact Or.inr (Or.inl rfl)
    · exact Or.inr (Or.inr (List.eq_of_mem_replicate htilde))

/-- An underline has no colon, and so it is no header. -/
theorem header?_text (underline : Underline) : header? underline.text = none := by
  rw [header?_eq_none_iff]
  rintro ⟨file, row, rest, blanks, severity, message, htext, -⟩
  have hcolon : (.char ':') ∈ underline.text := by
    rw [htext]
    exact List.mem_append_right file List.mem_cons_self
  rcases mem_text hcolon with hindent | hmark | hmark
  · exact absurd (underline.isBlank (.char ':') hindent).1 (by decide)
  · exact absurd hmark (by decide)
  · exact absurd hmark (by decide)

theorem isPlain_text (underline : Underline) : ∀ c ∈ underline.text, IsPlain c := by
  intro c hc
  rcases mem_text hc with hindent | rfl | rfl
  · obtain ⟨hblank, hbreak⟩ := underline.isBlank c hindent
    refine ⟨?_, hbreak⟩
    rintro rfl
    exact absurd hblank (by decide)
  · decide
  · decide

end Underline

namespace Record

variable (record : Record)

theorem isSeverity : IsSeverity (Text.glyphs record.severity) := by
  obtain ⟨c, rest, hcons, hletter⟩ := record.severity_first
  refine ⟨⟨.char c, Text.glyphs rest, by rw [hcons]; rfl, isAlpha_of_isLower hletter⟩, ?_⟩
  refine List.forall_mem_map.mpr fun d hd => ?_
  rw [isSeverityChar, CodePoint.isIn_char]
  rcases record.severity_char d hd with hlower | rfl
  · rw [isAlpha_of_isLower hlower, Bool.true_or]
  · rfl

theorem isPlain_severity : ∀ c ∈ Text.glyphs record.severity, IsPlain c := by
  refine List.forall_mem_map.mpr fun c hc => ?_
  rcases record.severity_char c hc with hlower | rfl
  · exact isPlain_of_isLower hlower
  · decide

theorem isBlank_of_isLower {c : Char} (hc : c.isLower = true) : Text.isBlank c = false :=
  isBlank_of_isAlpha (c := .char c) (isAlpha_of_isLower hc)

theorem trim_severity : Text.trim record.severity = record.severity := by
  apply Text.trimWhile_of_ends
  · intro c hc
    obtain ⟨first, rest, hcons, hlower⟩ := record.severity_first
    rw [hcons] at hc
    obtain rfl := Option.some.inj hc
    exact isBlank_of_isLower hlower
  · intro c hc
    refine isBlank_of_isLower ((record.severity_char c (List.mem_of_getLast? hc)).resolve_right ?_)
    rintro rfl
    exact record.severity_last hc

theorem map_toLower_severity : record.severity.map Char.toLower = record.severity := by
  refine (List.map_congr_left fun c hc => ?_).trans (List.map_id _)
  rcases record.severity_char c hc with hlower | rfl
  · exact toLower_of_isLower hlower
  · rfl

theorem trim_message :
    Text.trimWhile isBlank (.char ' ' :: record.message) = record.message :=
  Text.trimWhile_of_ends record.message_first record.message_last

theorem header?_header :
    header? record.header = some ⟨Text.glyphs (Text.decimal record.line),
      Text.glyphs (Text.decimal record.column), Text.glyphs record.severity,
      .char ' ' :: record.message⟩ := by
  apply header?_of_file record.file_colon
  apply headerBehindFile?_eq_some (isNumeral_decimal _) (isNumeral_decimal _) _ record.isSeverity
  exact List.forall_mem_singleton.mpr (by decide)

/-- What is read of a record: what it says, if its numerals are converted. -/
def read : Except Text.NumeralTooLong ReportEntry := do
  let line ← Text.readDigits (Text.decimal record.line)
  let column ← Text.readDigits (Text.decimal record.column)
  .ok { record.entry with line, column }

theorem read_eq_ok (hline : Text.IsConvertible record.line)
    (hcolumn : Text.IsConvertible record.column) : record.read = .ok record.entry := by
  rw [read, Text.readDigits_decimal hline, Text.readDigits_decimal hcolumn]
  rfl

/-- A record is not read when one of its numerals has too many digits. -/
theorem read_eq_error
    (hlong : ¬(Text.IsConvertible record.line ∧ Text.IsConvertible record.column)) :
    ∃ n, (n = record.line ∨ n = record.column) ∧ ¬Text.IsConvertible n ∧
      record.read = .error ⟨(Text.decimal n).length⟩ := by
  by_cases hline : Text.IsConvertible record.line
  · have hcolumn : ¬Text.IsConvertible record.column := fun h => hlong ⟨hline, h⟩
    refine ⟨record.column, Or.inr rfl, hcolumn, ?_⟩
    rw [read, Text.readDigits_decimal hline, Text.readDigits_decimal_of_not hcolumn]
    rfl
  · refine ⟨record.line, Or.inl rfl, hline, ?_⟩
    rw [read, Text.readDigits_decimal_of_not hline]
    rfl

theorem mem_following {line : List CodePoint} (hline : line ∈ record.following) :
    (∃ source, record.source = some source ∧ line = source.text) ∨
      ∃ underline, record.underline = some underline ∧ line = underline.text := by
  rcases List.mem_append.mp hline with hsource | hunderline
  · rw [Option.mem_toList, Option.map_eq_some_iff] at hsource
    obtain ⟨source, hsource, rfl⟩ := hsource
    exact Or.inl ⟨source, hsource, rfl⟩
  · rw [Option.mem_toList, Option.map_eq_some_iff] at hunderline
    obtain ⟨underline, hunderline, rfl⟩ := hunderline
    exact Or.inr ⟨underline, hunderline, rfl⟩

/-- No line of a record begins an escape or is broken. -/
theorem isPlain_lines : ∀ line ∈ record.lines, ∀ c ∈ line, IsPlain c := by
  have hmark : IsPlain (.char ':') ∧ IsPlain (.char ' ') := by decide
  rw [lines, List.forall_mem_cons]
  constructor
  · simp only [header, List.forall_mem_append, List.forall_mem_cons]
    exact ⟨record.isPlain_file, hmark.1, isPlain_decimal _, hmark.1, isPlain_decimal _, hmark.1,
      ⟨hmark.2, List.forall_mem_nil _⟩, record.isPlain_severity, hmark.1, hmark.2,
      record.isPlain_message⟩
  · intro line hline
    rcases record.mem_following hline with ⟨source, -, rfl⟩ | ⟨underline, -, rfl⟩
    · exact source.isPlain
    · exact underline.isPlain_text

/-- The lines of a record behind its header are no headers. -/
theorem header?_following : ∀ line ∈ record.following, header? line = none := by
  intro line hline
  rcases record.mem_following hline with ⟨source, -, rfl⟩ | ⟨underline, -, rfl⟩
  · exact (header?_eq_none_iff source.text).mpr source.not_header
  · exact underline.header?_text

end Record

/-- The lines of records have no length to give to what stands in front of them: the first
of them is a header. -/
theorem lengthIn_take (records : List Record) (count : Nat) :
    lengthIn ((records.flatMap Record.lines).take count) = 1 := by
  cases count with
  | zero => rfl
  | succ count =>
      cases records with
      | nil => rfl
      | cons record records =>
          rw [List.flatMap_cons, Record.lines, List.cons_append, List.take_succ_cons, lengthIn,
            record.header?_header]
          rfl

theorem lengthIn_underline (underline : Underline) (rest : List (List CodePoint)) :
    lengthIn (underline.text :: rest) = underline.width := by
  rw [lengthIn, underline.header?_text, underline.underline?_text]
  rfl

/-- A line of the source is passed over. -/
theorem lengthIn_source (source : Source) (rest : List (List CodePoint)) :
    lengthIn (source.text :: rest) = lengthIn rest := by
  rw [lengthIn, (header?_eq_none_iff source.text).mpr source.not_header,
    (underline?_eq_none_iff source.text).mpr source.not_underline]
  rfl

/-- Within the two lines behind its header a record has its own underline, or it is over and
the header of the next one stands there. -/
theorem lengthIn_following (record : Record) (records : List Record) :
    lengthIn ((record.following ++ records.flatMap Record.lines).take 2) =
      record.entry.length := by
  have hentry : record.entry.length = (record.underline.map Underline.width).getD 1 := rfl
  rw [hentry, Record.following]
  cases record.source with
  | none =>
      cases record.underline with
      | none => exact lengthIn_take records 2
      | some underline => exact lengthIn_underline underline _
  | some source =>
      cases record.underline with
      | none => exact (lengthIn_source source _).trans (lengthIn_take records 1)
      | some underline => exact (lengthIn_source source _).trans (lengthIn_underline underline _)

theorem entriesOfLines_append {front : List (List CodePoint)}
    (hfront : ∀ line ∈ front, header? line = none) (rest : List (List CodePoint)) :
    entriesOfLines (front ++ rest) = entriesOfLines rest := by
  induction front with
  | nil => rfl
  | cons line front ih =>
      obtain ⟨hline, hmore⟩ := List.forall_mem_cons.mp hfront
      rw [List.cons_append, entriesOfLines, hline]
      exact ih hmore

/-- The lines of records are read one record after another. -/
theorem entriesOfLines_lines (records : List Record) :
    entriesOfLines (records.flatMap Record.lines) = records.mapM Record.read := by
  induction records with
  | nil => rfl
  | cons record records ih =>
      have hlength := lengthIn_following record records
      rw [List.flatMap_cons, Record.lines, List.cons_append, entriesOfLines,
        record.header?_header, List.mapM_cons]
      dsimp only
      rw [entriesOfLines_append record.header?_following, ih, entry, hlength]
      simp only [Text.chars_glyphs]
      rw [record.trim_severity, record.map_toLower_severity, record.trim_message]
      rfl

/-- However a report is painted, its records are read one after another. -/
theorem parse_painted_render (records : List Record) (colours : Nat → List Colour) :
    parse (painted colours (render records)) = records.mapM Record.read := by
  have hlines : ∀ line ∈ records.flatMap Record.lines, ∀ c ∈ line, IsPlain c := by
    intro line hline
    obtain ⟨record, -, hmem⟩ := List.mem_flatMap.mp hline
    exact record.isPlain_lines line hmem
  have hescape : ∀ c ∈ render records, c ≠ .char '\x1b' := by
    intro c hc
    obtain ⟨line, hline, hmem⟩ := List.mem_flatMap.mp hc
    rcases List.mem_append.mp hmem with hinner | hfeed
    · exact (hlines line hline c hinner).1
    · rw [List.mem_singleton.mp hfeed]
      decide
  rw [parse, withoutColours_painted colours hescape, render,
    Text.lines_flatMap fun line hline c hc => (hlines line hline c hc).2, entriesOfLines_lines]

/-- However an error text is painted, one entry is read for each of its records, in their
order, with the same line, column, severity and message and with the length of the record's
own underline.  The one exception are records with a numeral of too many digits: then nothing
is read, and the error tells the digits of one of these numerals. -/
theorem parse_undoes_rendering (records : List Record) (colours : Nat → List Colour) :
    ((∀ record ∈ records,
        Text.IsConvertible record.line ∧ Text.IsConvertible record.column) →
      parse (painted colours (render records)) = .ok (records.map Record.entry)) ∧
    ((∃ record ∈ records,
        ¬(Text.IsConvertible record.line ∧ Text.IsConvertible record.column)) →
      ∃ record ∈ records, ∃ n, (n = record.line ∨ n = record.column) ∧ ¬Text.IsConvertible n ∧
        parse (painted colours (render records)) = .error ⟨(Text.decimal n).length⟩) := by
  rw [parse_painted_render]
  constructor
  · intro hall
    exact mapM_eq_ok_map fun record hmem =>
      record.read_eq_ok (hall record hmem).1 (hall record hmem).2
  · rintro ⟨record, hmem, hlong⟩
    cases hread : records.mapM Record.read with
    | ok entries =>
        obtain ⟨entry, hentry⟩ := exists_mapM_iff.mp ⟨entries, hread⟩ record hmem
        obtain ⟨n, -, -, herror⟩ := record.read_eq_error hlong
        cases hentry.symm.trans herror
    | error tooLong =>
        obtain ⟨other, hother, herror⟩ := exists_of_mapM_error hread
        have hlong' : ¬(Text.IsConvertible other.line ∧ Text.IsConvertible other.column) := by
          intro h
          cases herror.symm.trans (other.read_eq_ok h.1 h.2)
        obtain ⟨n, hn, hlarge, hdigits⟩ := other.read_eq_error hlong'
        exact ⟨other, hother, n, hn, hlarge,
          congrArg Except.error (Except.error.inj (herror.symm.trans hdigits))⟩

theorem forall_mem_of_all {α : Type} {p : α → Prop} [DecidablePred p] {cs : List α}
    (hall : cs.all (fun c => decide (p c)) = true) : ∀ c ∈ cs, p c :=
  fun c hc => of_decide_eq_true (List.all_eq_true.mp hall c hc)

/-- A record with a colon in its file, a message that looks like a header, a line of the
source and an underline. -/
def quotedRecord : Record where
  file := [.char 'C', .char ':', .char '/', .char 'a']
  line := 12
  column := 3
  severity := "syntax error".toList
  message := Text.glyphs "b:2:1: error: c".toList
  source := some ⟨Text.glyphs "  x := 1:2".toList, (header?_eq_none_iff _).mp (by decide),
    (underline?_eq_none_iff _).mp (by decide), forall_mem_of_all (by decide)⟩
  underline := some ⟨Text.glyphs [' ', '\t'], 3, forall_mem_of_all (by decide)⟩
  file_colon := by
    intro before c after hfile
    rcases before with _ | ⟨first, _ | ⟨second, before⟩⟩
    · exact absurd (List.cons.inj hfile).1 (by decide)
    · obtain ⟨rfl, -⟩ := List.cons.inj (List.cons.inj (List.cons.inj hfile).2).2
      decide
    · have hrest := (List.cons.inj (List.cons.inj hfile).2).2
      have hcolon : .char ':' ∈ [CodePoint.char '/', .char 'a'] :=
        hrest ▸ List.mem_append_right before List.mem_cons_self
      exact absurd hcolon (by decide)
  severity_first := ⟨'s', _, rfl, by decide⟩
  severity_char := forall_mem_of_all (by decide)
  severity_last := by decide
  message_first := fun c hc => Option.some.inj hc ▸ by decide
  message_last := fun c hc => Option.some.inj hc ▸ by decide
  isPlain_file := forall_mem_of_all (by decide)
  isPlain_message := forall_mem_of_all (by decide)

/-- A record of one line, in a file with a short name. -/
def bareRecord (column : Nat) : Record where
  file := Text.glyphs ['a']
  line := 1
  column
  severity := "error".toList
  message := Text.glyphs ['m']
  source := none
  underline := none
  file_colon := by
    intro before c after hfile
    have hcolon : .char ':' ∈ Text.glyphs ['a'] :=
      hfile ▸ List.mem_append_right before List.mem_cons_self
    exact absurd hcolon (by decide)
  severity_first := ⟨'e', _, rfl, by decide⟩
  severity_char := forall_mem_of_all (by decide)
  severity_last := by decide
  message_first := fun c hc => Option.some.inj hc ▸ by decide
  message_last := fun c hc => Option.some.inj hc ▸ by decide
  isPlain_file := forall_mem_of_all (by decide)
  isPlain_message := forall_mem_of_all (by decide)

/-- Three records, of which the second has an underline, with two colours at every place. -/
theorem parse_undoes_rendering_of_three :
    let records := [bareRecord 7, quotedRecord, bareRecord 1]
    let colours : Nat → List Colour := fun _ =>
      [⟨[.char '1'], forall_mem_of_all (by decide)⟩, ⟨[], List.forall_mem_nil _⟩]
    (∀ record ∈ records,
      Text.IsConvertible record.line ∧ Text.IsConvertible record.column) ∧
    parse (painted colours (render records)) =
      .ok [⟨1, 7, 1, "error", "m"⟩, ⟨12, 3, 4, "syntax error", "b:2:1: error: c"⟩,
        ⟨1, 1, 1, "error", "m"⟩] := by
  intro records colours
  have hall : ∀ record ∈ records,
      Text.IsConvertible record.line ∧ Text.IsConvertible record.column := by
    have hsmall : ∀ n < 100, Text.IsConvertible n := fun n hn =>
      Text.isConvertible_iff.mpr (Nat.lt_of_lt_of_le hn (Text.tenTo_le (k := 2) (by decide)))
    have hless : ∀ record ∈ records, record.line < 100 ∧ record.column < 100 := by decide
    intro record hmem
    exact ⟨hsmall _ (hless record hmem).1, hsmall _ (hless record hmem).2⟩
  exact ⟨hall, (parse_undoes_rendering records colours).1 hall⟩

/-- The least number of more digits than are converted. -/
def farColumn : Nat := Number.tenTo Text.maxNumeralDigits

theorem not_isConvertible_farColumn : ¬Text.IsConvertible farColumn := by
  rw [Text.isConvertible_iff, farColumn]
  exact Nat.lt_irrefl _

theorem read_bareRecord_ne_ok {column : Nat} (hcolumn : ¬Text.IsConvertible column)
    (colours : Nat → List Colour) (entries : List ReportEntry) :
    parse (painted colours (render [bareRecord column])) ≠ .ok entries := by
  intro hread
  rw [parse_painted_render] at hread
  obtain ⟨entry, hentry⟩ := exists_mapM_iff.mp ⟨entries, hread⟩ _ List.mem_cons_self
  obtain ⟨n, -, -, herror⟩ := (bareRecord column).read_eq_error fun h => hcolumn h.2
  cases hentry.symm.trans herror

/-- Not every error text is read back: one with such a column is not. -/
theorem not_every_report_is_read :
    ¬∀ (records : List Record) (colours : Nat → List Colour),
      parse (painted colours (render records)) = .ok (records.map Record.entry) :=
  fun hall => read_bareRecord_ne_ok not_isConvertible_farColumn (fun _ => []) _
    (hall [bareRecord farColumn] fun _ => [])

end ErrorReport

end EditorBridge
