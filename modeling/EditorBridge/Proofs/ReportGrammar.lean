/-
The grammar of error texts.  Colours are taken out wherever they stand, lines that are each
ended by a line feed are the lines that are read, and headers and underlines are recognized
by what they are made of.
-/
import EditorBridge.ErrorReport

namespace EditorBridge

namespace Text

theorem lines_append {line : List CodePoint} (hline : ∀ c ∈ line, c.isIn isLineBreak = false)
    (rest : List CodePoint) : lines (line ++ .char '\n' :: rest) = line :: lines rest := by
  induction line with
  | nil => rfl
  | cons c line ih =>
      obtain ⟨hc, hmore⟩ := List.forall_mem_cons.mp hline
      have hreturn : c ≠ .char '\r' := by
        rintro rfl
        cases hc
      rw [List.cons_append, lines]
      · rw [hc, if_neg Bool.false_ne_true, ih hmore]
      · exact fun _ hreturned _ => hreturn hreturned

/-- Lines without a break in them, each with a line feed behind it, are read as they are. -/
theorem lines_flatMap {texts : List (List CodePoint)}
    (htexts : ∀ line ∈ texts, ∀ c ∈ line, c.isIn isLineBreak = false) :
    lines (texts.flatMap (· ++ [(.char '\n')])) = texts := by
  induction texts with
  | nil => rfl
  | cons line texts ih =>
      obtain ⟨hline, hmore⟩ := List.forall_mem_cons.mp htexts
      rw [List.flatMap_cons, List.append_assoc, List.singleton_append, lines_append hline,
        ih hmore]

theorem takeWhile_append {p : CodePoint → Bool} {front : List CodePoint} {c : CodePoint}
    (rest : List CodePoint)
    (hfront : ∀ d ∈ front, p d = true) (hc : p c = false) :
    (front ++ c :: rest).takeWhile p = front := by
  rw [List.takeWhile_append_of_pos hfront, List.takeWhile_cons_of_neg, List.append_nil]
  rw [hc]
  exact Bool.false_ne_true

theorem dropWhile_append {p : CodePoint → Bool} {front : List CodePoint} {c : CodePoint}
    (rest : List CodePoint)
    (hfront : ∀ d ∈ front, p d = true) (hc : p c = false) :
    (front ++ c :: rest).dropWhile p = c :: rest := by
  rw [List.dropWhile_append_of_pos hfront, List.dropWhile_cons_of_neg]
  rw [hc]
  exact Bool.false_ne_true

end Text

namespace ErrorReport

/-- A colour escape, by what stands between its bracket and its end. -/
structure Colour where
  codes : List CodePoint
  isCode : ∀ c ∈ codes, c.isIn Text.isAsciiDigit = true ∨ c = .char ';'

def Colour.escape (colour : Colour) : List CodePoint :=
  .char '\x1b' :: .char '[' :: (colour.codes ++ [.char 'm'])

/-- A text with any number of colour escapes at each of its places. -/
def painted (colours : Nat → List Colour) : List CodePoint → List CodePoint
  | [] => (colours 0).flatMap Colour.escape
  | c :: rest =>
      (colours 0).flatMap Colour.escape ++ c :: painted (fun place => colours (place + 1)) rest

theorem behindColour?_codes {codes : List CodePoint}
    (hcodes : ∀ c ∈ codes, c.isIn Text.isAsciiDigit = true ∨ c = .char ';')
    (rest : List CodePoint) :
    behindColour? (codes ++ .char 'm' :: rest) = some rest := by
  induction codes with
  | nil => rfl
  | cons c codes ih =>
      obtain ⟨hc, hmore⟩ := List.forall_mem_cons.mp hcodes
      have hend : c ≠ .char 'm' := by
        rintro rfl
        revert hc
        decide
      rw [List.cons_append, behindColour?, if_neg hend, if_pos, ih hmore]
      simpa using hc

theorem withoutColours_of_some {c : CodePoint} {rest left : List CodePoint}
    (hleft : behindEscape? (c :: rest) = some left) :
    withoutColours (c :: rest) = withoutColours left := by
  rw [withoutColours]
  split
  next other hother => rw [Option.some.inj (hother.symm.trans hleft)]
  next hnone => exact absurd (hleft.symm.trans hnone) (Option.some_ne_none left)

theorem withoutColours_of_none {c : CodePoint} {rest : List CodePoint}
    (hnone : behindEscape? (c :: rest) = none) :
    withoutColours (c :: rest) = c :: withoutColours rest := by
  rw [withoutColours]
  split
  next left hleft => exact absurd (hleft.symm.trans hnone) (Option.some_ne_none left)
  next => rfl

theorem withoutColours_escape (colour : Colour) (rest : List CodePoint) :
    withoutColours (colour.escape ++ rest) = withoutColours rest := by
  have hbehind : behindEscape? (colour.escape ++ rest) = some rest := by
    rw [Colour.escape, List.cons_append, List.cons_append, List.append_assoc,
      List.singleton_append, behindEscape?, behindColour?_codes colour.isCode]
  rw [Colour.escape, List.cons_append] at hbehind ⊢
  exact withoutColours_of_some hbehind

theorem withoutColours_flatMap (colours : List Colour) (rest : List CodePoint) :
    withoutColours (colours.flatMap Colour.escape ++ rest) = withoutColours rest := by
  induction colours with
  | nil => rfl
  | cons colour colours ih =>
      rw [List.flatMap_cons, List.append_assoc, withoutColours_escape, ih]

theorem withoutColours_cons {c : CodePoint} (hc : c ≠ .char '\x1b') (rest : List CodePoint) :
    withoutColours (c :: rest) = c :: withoutColours rest := by
  have hnone : behindEscape? (c :: rest) = none := by
    unfold behindEscape?
    split
    next heq => exact absurd (List.cons.inj heq).1 hc
    next => rfl
  exact withoutColours_of_none hnone

/-- Taking out the colours undoes the painting of a text that has no escapes of its own. -/
theorem withoutColours_painted (colours : Nat → List Colour) {text : List CodePoint}
    (htext : ∀ c ∈ text, c ≠ .char '\x1b') : withoutColours (painted colours text) = text := by
  induction text generalizing colours with
  | nil =>
      rw [painted, ← List.append_nil (List.flatMap _ _), withoutColours_flatMap, withoutColours]
  | cons c rest ih =>
      obtain ⟨hc, hrest⟩ := List.forall_mem_cons.mp htext
      rw [painted, withoutColours_flatMap, withoutColours_cons hc, ih _ hrest]

/-- The digits of a line or a column. -/
def IsNumeral (cs : List CodePoint) : Prop := cs ≠ [] ∧ ∀ c ∈ cs, isDigit c = true

/-- Letters and spaces, a letter first. -/
def IsSeverity (cs : List CodePoint) : Prop :=
  (∃ c rest, cs = c :: rest ∧ c.isIn Char.isAlpha = true) ∧ ∀ c ∈ cs, isSeverityChar c = true

/-- A header: a file, a line, a column, a severity and a message, with colons between them
and maybe blanks in front of the severity. -/
def IsHeader (line : List CodePoint) : Prop :=
  ∃ file row column blanks severity message,
    line = file ++ .char ':' :: (row ++ .char ':' :: (column ++ .char ':' ::
      (blanks ++ (severity ++ .char ':' :: message)))) ∧
      IsNumeral row ∧ IsNumeral column ∧ (∀ c ∈ blanks, isBlank c = true) ∧
      IsSeverity severity

/-- An underline: a caret and tildes, with blanks around them. -/
def IsUnderline (line : List CodePoint) : Prop :=
  ∃ indent tildes trail,
    line = indent ++ .char '^' :: (List.replicate tildes (.char '~') ++ trail) ∧
    (∀ c ∈ indent, isBlank c = true) ∧ ∀ c ∈ trail, isBlank c = true

theorem numeral?_eq_some_iff {cs row rest : List CodePoint} :
    numeral? cs = some (row, rest) ↔ IsNumeral row ∧ cs = row ++ .char ':' :: rest := by
  constructor
  · intro h
    unfold numeral? at h
    split at h
    next d digits rest' htake hdrop =>
        obtain ⟨rfl, rfl⟩ := Prod.mk.inj (Option.some.inj h)
        refine ⟨⟨List.cons_ne_nil d digits, ?_⟩, ?_⟩
        · rw [← htake]
          exact List.all_eq_true.mp List.all_takeWhile
        · rw [← htake, ← hdrop, List.takeWhile_append_dropWhile]
    next => cases h
  · rintro ⟨⟨hne, hdigits⟩, rfl⟩
    have hcolon : isDigit (.char ':') = false := by decide
    obtain ⟨d, digits, rfl⟩ := List.exists_cons_of_ne_nil hne
    rw [numeral?, Text.takeWhile_append rest hdigits hcolon,
      Text.dropWhile_append rest hdigits hcolon]
    rfl

theorem severity?_eq_some_iff {cs severity message : List CodePoint} :
    severity? cs = some (severity, message) ↔
      IsSeverity severity ∧ cs = severity ++ .char ':' :: message := by
  constructor
  · intro h
    unfold severity? at h
    split at h
    next c word rest htake hdrop =>
        split at h
        next hletter =>
            obtain ⟨rfl, rfl⟩ := Prod.mk.inj (Option.some.inj h)
            refine ⟨⟨⟨c, word, rfl, hletter⟩, ?_⟩, ?_⟩
            · rw [← htake]
              exact List.all_eq_true.mp List.all_takeWhile
            · rw [← htake, ← hdrop, List.takeWhile_append_dropWhile]
        next => cases h
    next => cases h
  · rintro ⟨⟨⟨c, word, rfl, hletter⟩, hchars⟩, rfl⟩
    have hcolon : isSeverityChar (.char ':') = false := by decide
    rw [severity?, Text.takeWhile_append message hchars hcolon,
      Text.dropWhile_append message hchars hcolon]
    exact if_pos hletter

theorem isBlank_of_isAlpha {c : CodePoint} (hc : c.isIn Char.isAlpha = true) :
    isBlank c = false := by
  cases c with
  | lone offset => rfl
  | char c =>
      rw [CodePoint.isIn_char] at hc
      have hletter := (Text.isAlpha_iff c).mp hc
      simp only [isBlank, CodePoint.isIn_char, Text.isBlank, Bool.or_eq_false_iff,
        Bool.and_eq_false_iff, decide_eq_false_iff_not, beq_eq_false_iff_ne]
      omega

theorem headerBehindFile?_eq_some {row column blanks severity : List CodePoint}
    (hrow : IsNumeral row)
    (hcolumn : IsNumeral column) (hblanks : ∀ c ∈ blanks, isBlank c = true)
    (hseverity : IsSeverity severity) (message : List CodePoint) :
    headerBehindFile?
        (row ++ .char ':' :: (column ++ .char ':' ::
          (blanks ++ (severity ++ .char ':' :: message)))) =
      some ⟨row, column, severity, message⟩ := by
  have hdrop : (blanks ++ (severity ++ .char ':' :: message)).dropWhile isBlank =
      severity ++ .char ':' :: message := by
    obtain ⟨⟨c, word, rfl, hletter⟩, -⟩ := hseverity
    exact Text.dropWhile_append _ hblanks (isBlank_of_isAlpha hletter)
  rw [headerBehindFile?, numeral?_eq_some_iff.mpr ⟨hrow, rfl⟩]
  dsimp only [Option.bind_eq_bind, Option.bind_some]
  rw [numeral?_eq_some_iff.mpr ⟨hcolumn, rfl⟩]
  dsimp only [Option.bind_some]
  rw [hdrop, severity?_eq_some_iff.mpr ⟨hseverity, rfl⟩]
  rfl

/-- What is read as a header behind the file name is made of its parts. -/
theorem eq_of_headerBehindFile? {cs : List CodePoint} {header : Header}
    (h : headerBehindFile? cs = some header) :
    ∃ blanks, cs = header.line ++ .char ':' :: (header.column ++ .char ':' ::
        (blanks ++ (header.severity ++ .char ':' :: header.message))) ∧
      IsNumeral header.line ∧ IsNumeral header.column ∧ (∀ c ∈ blanks, isBlank c = true) ∧
      IsSeverity header.severity := by
  simp only [headerBehindFile?, Option.bind_eq_bind, Option.bind_eq_some_iff] at h
  obtain ⟨⟨row, behindRow⟩, hrow, ⟨column, behindColumn⟩, hcolumn, ⟨severity, message⟩,
    hseverity, hheader⟩ := h
  obtain ⟨isRow, rfl⟩ := numeral?_eq_some_iff.mp hrow
  obtain ⟨isColumn, hrest⟩ := numeral?_eq_some_iff.mp hcolumn
  obtain ⟨isSeverity, hbehind⟩ := severity?_eq_some_iff.mp hseverity
  rw [← Option.some.inj hheader]
  refine ⟨behindColumn.takeWhile isBlank, ?_, isRow, isColumn,
    List.all_eq_true.mp List.all_takeWhile, isSeverity⟩
  rw [← hbehind, List.takeWhile_append_dropWhile, ← hrest]

/-- A header is read from behind one of the colons of its line. -/
theorem exists_behindFile_of_header? {line : List CodePoint} {header : Header}
    (h : header? line = some header) :
    ∃ file tail, line = file ++ .char ':' :: tail ∧ headerBehindFile? tail = some header := by
  induction line with
  | nil => cases h
  | cons c rest ih =>
      have hrest : header? rest = some header → ∃ file tail,
          c :: rest = file ++ .char ':' :: tail ∧ headerBehindFile? tail = some header := by
        intro hheader
        obtain ⟨file, tail, rfl, hbehind⟩ := ih hheader
        exact ⟨c :: file, tail, rfl, hbehind⟩
      rw [header?] at h
      split at h
      next hc =>
          subst hc
          rcases Option.or_eq_some_iff.mp h with hbehind | ⟨-, hheader⟩
          · exact ⟨[], rest, rfl, hbehind⟩
          · exact hrest hheader
      next => exact hrest h

/-- A line is read as a header exactly when it is made like one. -/
theorem header?_isSome_iff (line : List CodePoint) :
    (header? line).isSome = true ↔ IsHeader line := by
  constructor
  · intro h
    obtain ⟨header, hheader⟩ := Option.isSome_iff_exists.mp h
    obtain ⟨file, tail, rfl, hbehind⟩ := exists_behindFile_of_header? hheader
    obtain ⟨blanks, rfl, hparts⟩ := eq_of_headerBehindFile? hbehind
    exact ⟨file, header.line, header.column, blanks, header.severity, header.message, rfl, hparts⟩
  · rintro ⟨file, row, column, blanks, severity, message, rfl, hrow, hcolumn, hblanks,
      hseverity⟩
    have hbehind := headerBehindFile?_eq_some hrow hcolumn hblanks hseverity message
    induction file with
    | nil => rw [List.nil_append, header?, if_pos rfl, Option.isSome_or, hbehind]; rfl
    | cons c file ih =>
        rw [List.cons_append, header?]
        split
        · rw [Option.isSome_or, ih, Bool.or_true]
        · exact ih

theorem header?_eq_none_iff (line : List CodePoint) : header? line = none ↔ ¬IsHeader line := by
  rw [← header?_isSome_iff, Option.not_isSome_iff_eq_none]

/-- The file ends at the colon that lets the rest be read when no colon in it has a digit
behind it. -/
theorem header?_of_file {file tail : List CodePoint} {header : Header}
    (hfile : ∀ before c after, file = before ++ .char ':' :: c :: after → isDigit c = false)
    (htail : headerBehindFile? tail = some header) :
    header? (file ++ .char ':' :: tail) = some header := by
  induction file with
  | nil => rw [List.nil_append, header?, if_pos rfl, htail, Option.some_or]
  | cons c file ih =>
      have hmore := ih fun before d after heq => hfile (c :: before) d after (by rw [heq]; rfl)
      rw [List.cons_append, header?]
      split
      next hc =>
          subst hc
          -- what stands behind this colon is no numeral
          have hnone : headerBehindFile? (file ++ .char ':' :: tail) = none := by
            have hnumeral : numeral? (file ++ .char ':' :: tail) = none := by
              rw [Option.eq_none_iff_forall_ne_some]
              rintro ⟨row, rest⟩ hsome
              obtain ⟨⟨hne, hdigits⟩, hrow⟩ := numeral?_eq_some_iff.mp hsome
              obtain ⟨d, digits, rfl⟩ := List.exists_cons_of_ne_nil hne
              have hd := hdigits d List.mem_cons_self
              cases file with
              | nil =>
                  rw [← (List.cons.inj hrow).1] at hd
                  exact absurd hd (by decide)
              | cons first file =>
                  rw [← (List.cons.inj hrow).1, hfile [] first file rfl] at hd
                  cases hd
            rw [headerBehindFile?, hnumeral]
            rfl
          rw [hnone, Option.none_or, hmore]
      next => exact hmore

theorem underline?_eq_some {indent trail : List CodePoint}
    (hindent : ∀ c ∈ indent, isBlank c = true) (tildes : Nat)
    (htrail : ∀ c ∈ trail, isBlank c = true) :
    underline? (indent ++ .char '^' :: (List.replicate tildes (.char '~') ++ trail)) =
      some (tildes + 1) := by
  have hcaret : isBlank (.char '^') = false := by decide
  have htildes : ∀ c ∈ List.replicate tildes (CodePoint.char '~'), (c == .char '~') = true := by
    intro c hc
    rw [List.eq_of_mem_replicate hc]
    rfl
  have hstop : trail.takeWhile (· == .char '~') = [] ∧
      trail.dropWhile (· == .char '~') = trail := by
    cases trail with
    | nil => exact ⟨rfl, rfl⟩
    | cons c trail =>
        have hc : ¬(c == .char '~') = true := by
          rw [beq_iff_eq]
          rintro rfl
          exact absurd (htrail (.char '~') List.mem_cons_self) (by decide)
        exact ⟨List.takeWhile_cons_of_neg hc, List.dropWhile_cons_of_neg hc⟩
  rw [underline?, Text.dropWhile_append _ hindent hcaret]
  simp only [List.dropWhile_append_of_pos htildes, List.takeWhile_append_of_pos htildes,
    hstop.1, hstop.2, if_pos (List.all_eq_true.mpr htrail), List.append_nil,
    List.length_replicate]

/-- A line is read as an underline exactly when it is made like one. -/
theorem underline?_isSome_iff (line : List CodePoint) :
    (underline? line).isSome = true ↔ IsUnderline line := by
  constructor
  · intro h
    unfold underline? at h
    split at h
    next rest hcaret =>
        split at h
        next htrail =>
            have htildes : rest.takeWhile (· == .char '~') =
                List.replicate (rest.takeWhile (· == .char '~')).length (.char '~') := by
              rw [List.eq_replicate_iff]
              refine ⟨rfl, fun c hc => ?_⟩
              exact beq_iff_eq.mp (List.all_eq_true.mp List.all_takeWhile c hc)
            refine ⟨line.takeWhile isBlank, (rest.takeWhile (· == .char '~')).length,
              rest.dropWhile (· == .char '~'), ?_, List.all_eq_true.mp List.all_takeWhile,
              List.all_eq_true.mp htrail⟩
            rw [← htildes, List.takeWhile_append_dropWhile, ← hcaret,
              List.takeWhile_append_dropWhile]
        next => cases h
    next => cases h
  · rintro ⟨indent, tildes, trail, rfl, hindent, htrail⟩
    rw [underline?_eq_some hindent tildes htrail]
    rfl

theorem underline?_eq_none_iff (line : List CodePoint) :
    underline? line = none ↔ ¬IsUnderline line := by
  rw [← underline?_isSome_iff, Option.not_isSome_iff_eq_none]

end ErrorReport

end EditorBridge
