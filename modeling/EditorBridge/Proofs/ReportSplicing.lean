/-
Error texts put one behind the other.  When the first ends with a line boundary and the second
begins with a header, the entries of both together are those of the first and then those of the
second: no escape and no line runs across the place where they meet, and no entry looks for its
underline beyond the next header.
-/
import EditorBridge.Proofs.Outcomes
import EditorBridge.Proofs.ReportGrammar
import Mathlib.Control.Monad.Basic

namespace EditorBridge

namespace Text

/-- The text is empty or ends with a line boundary. -/
def EndsLine (text : List CodePoint) : Prop := ∀ c ∈ text.getLast?, c.isIn isLineBreak = true

theorem EndsLine.of_suffix {text left : List CodePoint} (hends : EndsLine text)
    (hleft : left <:+ text) : EndsLine left := by
  obtain ⟨front, rfl⟩ := hleft
  intro c hc
  apply hends c
  rw [Option.mem_def] at hc ⊢
  rw [List.getLast?_append, hc, Option.some_or]

theorem EndsLine.tail {c : CodePoint} {rest : List CodePoint} (hends : EndsLine (c :: rest)) :
    EndsLine rest :=
  hends.of_suffix (List.suffix_cons c rest)

/-- Something stands behind a character that is no boundary. -/
theorem EndsLine.ne_nil {c : CodePoint} {rest : List CodePoint} (hends : EndsLine (c :: rest))
    (hc : c.isIn isLineBreak = false) : rest ≠ [] := by
  rintro rfl
  rw [hends c rfl] at hc
  cases hc

/-- The two texts do not meet inside a line boundary of two characters. -/
def MeetApart (front rest : List CodePoint) : Prop :=
  front.getLast? = some (.char '\r') → rest.head? ≠ some (.char '\n')

theorem MeetApart.tail {c : CodePoint} {more rest : List CodePoint}
    (hmeet : MeetApart (c :: more) rest) :
    MeetApart more rest := by
  intro hlast
  apply hmeet
  rw [List.getLast?_cons, hlast]
  rfl

/-- A line begins with its first character, unless this is a boundary. -/
theorem lines_cons {c : CodePoint} {rest : List CodePoint} (hwhole : MeetApart [c] rest) :
    lines (c :: rest) =
      if c.isIn isLineBreak then [] :: lines rest
      else match lines rest with
        | [] => [[c]]
        | line :: more => (c :: line) :: more := by
  have hother : ∀ more, c = .char '\r' → rest = .char '\n' :: more → False := fun _ hreturn hrest =>
    hwhole (congrArg some hreturn) (congrArg List.head? hrest)
  exact lines.eq_3 c rest hother

theorem lines_ne_nil {text : List CodePoint} (htext : text ≠ []) : lines text ≠ [] := by
  fun_cases lines text with
  | case1 => exact absurd rfl htext
  | case2 | case3 | case4 | case5 => exact List.cons_ne_nil _ _

/-- The lines of a text behind a line boundary are lines of their own. -/
theorem lines_append_of_endsLine {front rest : List CodePoint} (hends : EndsLine front)
    (hmeet : MeetApart front rest) : lines (front ++ rest) = lines front ++ lines rest := by
  fun_induction lines front with
  | case1 => rfl
  | case2 more ih =>
      have hmore := ih hends.tail.tail hmeet.tail.tail
      rw [List.cons_append, List.cons_append, lines, hmore, List.cons_append]
  | case3 c more hwhole hbreak ih =>
      have hapart : MeetApart [c] (more ++ rest) := by
        intro hreturn
        cases more with
        | nil => exact hmeet hreturn
        | cons d later =>
            intro hfeed
            exact hwhole later (Option.some.inj hreturn) (by rw [Option.some.inj hfeed])
      rw [List.cons_append, lines_cons hapart, if_pos hbreak, ih hends.tail hmeet.tail,
        List.cons_append]
  | case4 c more hwhole hbreak hnone ih =>
      exact absurd hnone (lines_ne_nil (hends.ne_nil (by simpa using hbreak)))
  | case5 c more hwhole hbreak line later hlines ih =>
      have hapart : MeetApart [c] (more ++ rest) := by
        intro hreturn
        obtain rfl : c = .char '\r' := Option.some.inj hreturn
        exact absurd rfl hbreak
      rw [List.cons_append, lines_cons hapart, if_neg hbreak, ih hends.tail hmeet.tail, hlines,
        List.cons_append]
      rfl

/-- The characters between the bracket of a colour escape and its end end no line. -/
theorem isLineBreak_of_code {c : CodePoint} (hc : c.isIn isAsciiDigit = true ∨ c = .char ';') :
    c.isIn isLineBreak = false := by
  rcases hc with hdigit | rfl
  · cases c with
    | lone offset => rfl
    | char c =>
        have hcode : 48 ≤ c.toNat ∧ c.toNat ≤ 57 := by
          simpa [isAsciiDigit, Char.le_def, UInt32.le_iff_toNat_le] using hdigit
        simp only [CodePoint.isIn_char, isLineBreak, Bool.or_eq_false_iff, Bool.and_eq_false_iff,
          decide_eq_false_iff_not, beq_eq_false_iff_ne]
        omega
  · decide

end Text

namespace ErrorReport

open Text (EndsLine MeetApart)

theorem behindColour?_append {front : List CodePoint} (hends : EndsLine front) (hne : front ≠ [])
    (rest : List CodePoint) :
    behindColour? (front ++ rest) = (behindColour? front).map (· ++ rest) := by
  induction front with
  | nil => exact absurd rfl hne
  | cons c more ih =>
      rw [List.cons_append, behindColour?, behindColour?]
      by_cases hend : c = .char 'm'
      · rw [if_pos hend, if_pos hend]
        rfl
      · rw [if_neg hend, if_neg hend]
        by_cases hcode : (c.isIn Text.isAsciiDigit || c = .char ';') = true
        · have hbreak : c.isIn Text.isLineBreak = false :=
            Text.isLineBreak_of_code (by simpa using hcode)
          rw [if_pos hcode, if_pos hcode, ih hends.tail (hends.ne_nil hbreak)]
        · rw [if_neg hcode, if_neg hcode]
          rfl

/-- No colour escape runs across a line boundary. -/
theorem behindEscape?_append {front : List CodePoint} (hends : EndsLine front) (hne : front ≠ [])
    (rest : List CodePoint) :
    behindEscape? (front ++ rest) = (behindEscape? front).map (· ++ rest) := by
  have hboundary : (CodePoint.char '\x1b').isIn Text.isLineBreak = false ∧
      (CodePoint.char '[').isIn Text.isLineBreak = false := by decide
  obtain ⟨c, more, rfl⟩ := List.exists_cons_of_ne_nil hne
  by_cases hescape : c = .char '\x1b'
  · subst hescape
    obtain ⟨d, later, rfl⟩ := List.exists_cons_of_ne_nil (hends.ne_nil hboundary.1)
    by_cases hbracket : d = .char '['
    · subst hbracket
      exact behindColour?_append hends.tail.tail (hends.tail.ne_nil hboundary.2) rest
    · simp [behindEscape?, hbracket]
  · simp [behindEscape?, hescape]

theorem eq_append_of_behindColour? {cs left : List CodePoint}
    (hleft : behindColour? cs = some left) :
    ∃ codes, cs = codes ++ .char 'm' :: left := by
  induction cs with
  | nil => cases hleft
  | cons c rest ih =>
      rw [behindColour?] at hleft
      split at hleft
      next hend =>
          rw [hend, Option.some.inj hleft]
          exact ⟨[], rfl⟩
      next =>
          split at hleft
          · obtain ⟨codes, hcodes⟩ := ih hleft
            exact ⟨c :: codes, by rw [hcodes, List.cons_append]⟩
          · cases hleft

/-- A colour escape ends with its last letter. -/
theorem eq_append_of_behindEscape? {cs left : List CodePoint}
    (hleft : behindEscape? cs = some left) :
    ∃ codes, cs = codes ++ .char 'm' :: left := by
  unfold behindEscape? at hleft
  split at hleft
  next rest =>
      obtain ⟨codes, hcodes⟩ := eq_append_of_behindColour? hleft
      exact ⟨.char '\x1b' :: .char '[' :: codes, by rw [hcodes, List.cons_append, List.cons_append]⟩
  next => cases hleft

theorem suffix_of_behindEscape? {cs left : List CodePoint} (hleft : behindEscape? cs = some left) :
    left <:+ cs := by
  obtain ⟨codes, hcodes⟩ := eq_append_of_behindEscape? hleft
  rw [hcodes]
  exact (List.suffix_cons (.char 'm') left).trans (List.suffix_append codes _)

/-- The colours of a text that ends with a line boundary are taken out by themselves. -/
theorem withoutColours_append {front : List CodePoint} (hends : EndsLine front)
    (rest : List CodePoint) :
    withoutColours (front ++ rest) = withoutColours front ++ withoutColours rest := by
  fun_induction withoutColours front with
  | case1 => rfl
  | case2 c more left hleft ih =>
      have hacross := behindEscape?_append hends (List.cons_ne_nil c more) rest
      rw [hleft] at hacross
      rw [List.cons_append] at hacross ⊢
      rw [withoutColours_of_some hacross]
      exact ih (hends.of_suffix (suffix_of_behindEscape? hleft))
  | case3 c more hnone ih =>
      have hacross := behindEscape?_append hends (List.cons_ne_nil c more) rest
      rw [hnone] at hacross
      rw [List.cons_append] at hacross ⊢
      rw [withoutColours_of_none hacross, ih hends.tail, List.cons_append]

/-- A line boundary at the end of a text is not taken out with the colours. -/
theorem getLast?_withoutColours {text : List CodePoint} (hends : EndsLine text) :
    (withoutColours text).getLast? = text.getLast? := by
  fun_induction withoutColours text with
  | case1 => rfl
  | case2 c more left hleft ih =>
      obtain ⟨codes, hcodes⟩ := eq_append_of_behindEscape? hleft
      rw [hcodes] at hends ⊢
      have hbehind : EndsLine (.char 'm' :: left) := hends.of_suffix (List.suffix_append codes _)
      obtain ⟨d, later, rfl⟩ := List.exists_cons_of_ne_nil (hbehind.ne_nil (by decide))
      rw [ih hbehind.tail, List.getLast?_append, List.getLast?_cons_cons, List.getLast?_cons,
        Option.some_or]
  | case3 c more hnone ih => rw [List.getLast?_cons, List.getLast?_cons, ih hends.tail]

theorem endsLine_withoutColours {text : List CodePoint} (hends : EndsLine text) :
    EndsLine (withoutColours text) := by
  rw [EndsLine, getLast?_withoutColours hends]
  exact hends

/-- The lines begin with a header, if there are any. -/
def StartsEntry (lines : List (List CodePoint)) : Prop := ∀ line ∈ lines.head?, IsHeader line

/-- Lines that begin with a header give no length to what stands in front of them. -/
theorem lengthIn_take_append {front rest : List (List CodePoint)} (hrest : StartsEntry rest)
    (count : Nat) : lengthIn ((front ++ rest).take count) = lengthIn (front.take count) := by
  induction front generalizing count with
  | nil =>
      cases count with
      | zero => rfl
      | succ count =>
          cases rest with
          | nil => rfl
          | cons line more =>
              have hline := (header?_isSome_iff line).mpr (hrest line rfl)
              rw [List.nil_append, List.take_succ_cons, lengthIn, if_pos hline]
              rfl
  | cons line front ih =>
      cases count with
      | zero => rfl
      | succ count =>
          rw [List.cons_append, List.take_succ_cons, List.take_succ_cons, lengthIn, lengthIn, ih]

/-- Lines in front of a header are read by themselves. -/
theorem entriesOfLines_append_entries {front rest : List (List CodePoint)}
    (hrest : StartsEntry rest) :
    entriesOfLines (front ++ rest) = do
      let first ← entriesOfLines front
      let more ← entriesOfLines rest
      return first ++ more := by
  induction front with
  | nil =>
      rw [List.nil_append, entriesOfLines, ok_bind]
      cases entriesOfLines rest with
      | error tooLong => rfl
      | ok more => rfl
  | cons line front ih =>
      rw [List.cons_append, entriesOfLines, entriesOfLines]
      cases header? line with
      | none => exact ih
      | some header =>
          have hentry : entry header (front ++ rest) = entry header front := by
            rw [entry, entry, lengthIn_take_append hrest]
          dsimp only
          rw [hentry, ih]
          cases entry header front with
          | error tooLong => rfl
          | ok first =>
              cases entriesOfLines front with
              | error tooLong => rfl
              | ok between =>
                  cases entriesOfLines rest with
                  | error tooLong => rfl
                  | ok more => rfl

theorem one_le_underline? {line : List CodePoint} {width : Nat}
    (hline : underline? line = some width) :
    1 ≤ width := by
  unfold underline? at hline
  split at hline
  next rest hcaret =>
      split at hline
      · rw [← Option.some.inj hline]
        exact Nat.succ_pos _
      · cases hline
  next => cases hline

theorem one_le_lengthIn (lines : List (List CodePoint)) : 1 ≤ lengthIn lines := by
  induction lines with
  | nil => exact Nat.le_refl 1
  | cons line rest ih =>
      rw [lengthIn]
      split
      · exact Nat.le_refl 1
      · split
        next width hline => exact one_le_underline? hline
        next => exact ih

theorem one_le_length_of_entriesOfLines {lines : List (List CodePoint)} {entries : List ReportEntry}
    (hentries : entriesOfLines lines = .ok entries) : ∀ entry ∈ entries, 1 ≤ entry.length := by
  induction lines generalizing entries with
  | nil =>
      rw [← Except.ok.inj hentries]
      exact List.forall_mem_nil _
  | cons line rest ih =>
      rw [entriesOfLines] at hentries
      split at hentries
      next => exact ih hentries
      next header =>
          obtain ⟨first, hfirst, hentries⟩ := bind_eq_ok_iff.mp hentries
          obtain ⟨more, hmore, hentries⟩ := bind_eq_ok_iff.mp hentries
          obtain ⟨_, -, hfirst⟩ := bind_eq_ok_iff.mp hfirst
          obtain ⟨_, -, hfirst⟩ := bind_eq_ok_iff.mp hfirst
          rw [← Except.ok.inj hentries, List.forall_mem_cons, ← Except.ok.inj hfirst]
          exact ⟨one_le_lengthIn _, ih hmore⟩

theorem not_isHeader_nil : ¬IsHeader [] := (header?_eq_none_iff []).mp rfl

/-- A text that begins with a header does not begin with a line feed. -/
theorem meetApart_of_startsEntry {rest : List CodePoint} (hrest : StartsEntry (Text.lines rest))
    (front : List CodePoint) : MeetApart front rest := by
  intro _ hfeed
  obtain ⟨more, rfl⟩ := List.head?_eq_some_iff.mp hfeed
  rw [Text.lines_cons (by intro hreturn; cases hreturn), if_pos (by decide)] at hrest
  exact not_isHeader_nil (hrest [] rfl)

/-- Error texts are read one by one.  When a text is empty or ends with a line boundary, and what
follows it has no lines or begins, once its colours are taken out, with a header, both together
have the entries of the first and then those of the second, or fail as the first of them fails; so
no entry takes its length from a later one.  Every entry of every text is at least one character
long. -/
theorem reports_are_read_apart :
    (∀ front rest : List CodePoint, EndsLine front →
      StartsEntry (Text.lines (withoutColours rest)) →
      parse (front ++ rest) = do
        let first ← parse front
        let more ← parse rest
        return first ++ more) ∧
    ∀ (text : List CodePoint) (entries : List ReportEntry), parse text = .ok entries →
      ∀ entry ∈ entries, 1 ≤ entry.length := by
  constructor
  · intro front rest hends hrest
    rw [parse, withoutColours_append hends,
      Text.lines_append_of_endsLine (endsLine_withoutColours hends)
        (meetApart_of_startsEntry hrest _),
      entriesOfLines_append_entries hrest]
    rfl
  · intro text entries hentries
    exact one_le_length_of_entriesOfLines hentries

/-- A header that is followed at once by the header and the underline of the next text, with an
escape that the end of a line cuts off in front of it. -/
theorem reports_are_read_apart_behind_cut_escape :
    let front := Text.glyphs "\x1b[3\na:1:2: error: m\n".toList
    let rest := Text.glyphs "\x1b[31mb:3:4: warning: n\x1b[0m\n ^~~\n".toList
    EndsLine front ∧ StartsEntry (Text.lines (withoutColours rest)) ∧
      parse (front ++ rest) = .ok [⟨1, 2, 1, "error", "m"⟩, ⟨3, 4, 3, "warning", "n"⟩] := by
  intro front rest
  have hends : EndsLine front := by
    have hlast : front.getLast? = some (.char '\n') := by decide +kernel
    intro c hc
    rw [← Option.some.inj (hlast.symm.trans hc)]
    decide
  have hstart : StartsEntry (Text.lines (withoutColours rest)) := by
    have hheaders : ∀ line ∈ (Text.lines (withoutColours rest)).head?,
        (header? line).isSome = true := by decide +kernel
    exact fun line hline => (header?_isSome_iff line).mp (hheaders line hline)
  have hfront : parse front = .ok [⟨1, 2, 1, "error", "m"⟩] := by decide +kernel
  have hrest : parse rest = .ok [⟨3, 4, 3, "warning", "n"⟩] := by decide +kernel
  refine ⟨hends, hstart, ?_⟩
  rw [reports_are_read_apart.1 front rest hends hstart, hfront, hrest]
  rfl

end ErrorReport

end EditorBridge
