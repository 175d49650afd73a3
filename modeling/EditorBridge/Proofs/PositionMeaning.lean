/-
What positions mean.  The line of an offset is the number of newlines in front of it, and its
character is the number of UTF-16 units behind the last of them; a look-up among the starts of
lines finds the same position.  Later offsets have later positions, so that ranges lie in each
other as the spans do that they are taken from.
-/
import EditorBridge.Proofs.Innermost
import Mathlib.Algebra.Group.Nat.Defs
import Mathlib.Data.List.Induction
import Mathlib.Data.List.Nodup
import Mathlib.Data.List.TakeWhile

namespace EditorBridge

namespace Text

/-- The UTF-16 units of a code point: its number, or the two halves of a surrogate pair. -/
def units (c : CodePoint) : List UInt16 :=
  if c.toNat ≤ 0xffff then [UInt16.ofNat c.toNat]
  else [UInt16.ofNat (0xd800 + (c.toNat - 0x10000) / 0x400),
    UInt16.ofNat (0xdc00 + (c.toNat - 0x10000) % 0x400)]

/-- A text in UTF-16. -/
def utf16 (text : List CodePoint) : List UInt16 := text.flatMap units

theorem length_units (c : CodePoint) : (units c).length = unitWidth c := by
  rw [units, unitWidth]
  by_cases hc : c.toNat ≤ 0xffff
  · rw [if_pos hc, if_neg (Nat.not_lt.mpr hc)]
    rfl
  · rw [if_neg hc, if_pos (Nat.lt_of_not_le hc)]
    rfl

theorem length_utf16 (text : List CodePoint) : (utf16 text).length = unitLength text := by
  induction text with
  | nil => rfl
  | cons c rest ih =>
      rw [unitLength_cons, ← ih, ← length_units, utf16, List.flatMap_cons, List.length_append]
      rfl

example : utf16 (glyphs ['a', Char.ofNat 0x1f600]) = [0x61, 0xd83d, 0xde00] := by decide

end Text

namespace Position

theorem lastLine_concat (text : List CodePoint) (c : CodePoint) :
    lastLine (text ++ [c]) = if c = .char '\n' then [] else lastLine text ++ [c] := by
  rw [lastLine, List.reverse_concat, List.takeWhile_cons, lastLine]
  by_cases hc : c = .char '\n'
  · simp [hc]
  · simp [hc]

theorem lastLine_suffix (text : List CodePoint) : lastLine text <:+ text := by
  have hprefix := (List.takeWhile_prefix (· != .char '\n') (l := text.reverse)).reverse
  rwa [List.reverse_reverse] at hprefix

theorem drop_length_lastLine (text : List CodePoint) :
    text.drop (text.length - (lastLine text).length) = lastLine text :=
  (List.suffix_iff_eq_drop.mp (lastLine_suffix text)).symm

end Position

theorem lineStartsFrom_append (offset : Nat) (front back : List CodePoint) :
    lineStartsFrom offset (front ++ back) =
      lineStartsFrom offset front ++ lineStartsFrom (offset + front.length) back := by
  induction front generalizing offset with
  | nil => rfl
  | cons c rest ih =>
      have hlength : offset + 1 + rest.length = offset + (c :: rest).length := by
        rw [List.length_cons]
        omega
      rw [List.cons_append, lineStartsFrom, lineStartsFrom, ih, hlength]
      by_cases hc : c = .char '\n'
      · rw [if_pos hc, if_pos hc, List.cons_append]
      · rw [if_neg hc, if_neg hc]

theorem bounds_of_mem_lineStartsFrom {offset start : Nat} {text : List CodePoint}
    (hstart : start ∈ lineStartsFrom offset text) :
    offset < start ∧ start ≤ offset + text.length := by
  induction text generalizing offset with
  | nil => cases hstart
  | cons c rest ih =>
      rw [lineStartsFrom] at hstart
      rw [List.length_cons]
      have hlater : start ∈ lineStartsFrom (offset + 1) rest →
          offset < start ∧ start ≤ offset + (rest.length + 1) := by
        intro hmem
        have hbounds := ih hmem
        omega
      split at hstart
      · rcases List.mem_cons.mp hstart with rfl | hmem
        · omega
        · exact hlater hmem
      · exact hlater hstart

/-- The starts of lines come in order, so that they can be searched. -/
theorem pairwise_lineStarts (text : List CodePoint) : (lineStarts text).Pairwise (· < ·) := by
  have hfrom : ∀ offset, (lineStartsFrom offset text).Pairwise (· < ·) := by
    induction text with
    | nil => exact fun _ => .nil
    | cons c rest ih =>
        intro offset
        rw [lineStartsFrom]
        split
        · exact .cons (fun start hstart => (bounds_of_mem_lineStartsFrom hstart).1) (ih _)
        · exact ih _
  exact .cons (fun start hstart => (bounds_of_mem_lineStartsFrom hstart).1) (hfrom 0)

/-- There are as many starts as lines, and the last one is where the last line starts. -/
theorem lineStarts_ends (text : List CodePoint) :
    (lineStarts text).length = text.count (.char '\n') + 1 ∧
      (lineStarts text).getLast? = some (text.length - (Position.lastLine text).length) := by
  induction text using List.reverseRecOn with
  | nil => exact ⟨rfl, rfl⟩
  | append_singleton front c ih =>
      have hstarts : lineStarts (front ++ [c]) =
          lineStarts front ++ if c = .char '\n' then [front.length + 1] else [] := by
        rw [lineStarts, lineStartsFrom_append, Nat.zero_add, lineStarts, List.cons_append]
        rfl
      rw [hstarts, Position.lastLine_concat, List.count_append]
      by_cases hc : c = .char '\n'
      · simp [hc, ih.1]
      · have hle := (Position.lastLine_suffix front).length_le
        simp only [hc, if_false, List.append_nil, List.length_append, List.length_singleton]
        refine ⟨by simpa [hc] using ih.1, ih.2.trans (congrArg some ?_)⟩
        omega

/-- The starts at or before an offset are those of the text up to it. -/
theorem takeWhile_lineStarts {text : List CodePoint} {o : Nat} (ho : o ≤ text.length) :
    (lineStarts text).takeWhile (· ≤ o) = lineStarts (text.take o) := by
  have hlength : (text.take o).length = o := List.length_take_of_le ho
  have hsplit : lineStarts text = lineStarts (text.take o) ++ lineStartsFrom o (text.drop o) := by
    conv => lhs; rw [← List.take_append_drop o text]
    rw [lineStarts, lineStartsFrom_append, Nat.zero_add, hlength, lineStarts, List.cons_append]
  have hbefore : ∀ start ∈ lineStarts (text.take o), decide (start ≤ o) = true := by
    intro start hstart
    rw [decide_eq_true_eq]
    rcases List.mem_cons.mp hstart with rfl | hmem
    · exact Nat.zero_le o
    · have hbounds := bounds_of_mem_lineStartsFrom hmem
      omega
  have hbehind : (lineStartsFrom o (text.drop o)).takeWhile (· ≤ o) = [] := by
    rw [List.takeWhile_eq_nil_iff]
    intro hpos hle
    have hfirst := bounds_of_mem_lineStartsFrom (List.get_mem _ ⟨0, hpos⟩)
    rw [decide_eq_true_eq] at hle
    omega
  rw [hsplit, List.takeWhile_append_of_pos hbefore, hbehind, List.append_nil]

namespace Position

/-- The position of an offset, looked up among the starts of lines: its line is that of the
last start at or before it, and its character counts the units from there on. -/
def ofStarts (text : List CodePoint) (o : Nat) : Position :=
  let passed := (lineStarts text).takeWhile (· ≤ o)
  ⟨passed.length - 1, unitLength ((text.take o).drop (passed.getLast?.getD 0))⟩

/-- The position behind a text counts its newlines and the units of its last line. -/
theorem behind_eq (text : List CodePoint) :
    behind text = ⟨text.count (.char '\n'), unitLength (lastLine text)⟩ := by
  induction text using List.reverseRecOn with
  | nil => rfl
  | append_singleton front c ih =>
      rw [behind_append, ih, List.foldl_cons, List.foldl_nil, lastLine_concat, List.count_append,
        step]
      by_cases hc : c = .char '\n'
      · simp [hc]
      · simp [hc, unitLength_append]

theorem ofStarts_eq {text : List CodePoint} {o : Nat} (ho : o ≤ text.length) :
    ofStarts text o = behind (text.take o) := by
  obtain ⟨hcount, hlast⟩ := lineStarts_ends (text.take o)
  rw [ofStarts, takeWhile_lineStarts ho, behind_eq, hcount, hlast, Option.getD_some,
    drop_length_lastLine, Nat.add_sub_cancel]

theorem not_lt_iff {p q : Position} : ¬p < q ↔ q ≤ p := by
  rw [lt_iff, le_iff]
  omega

/-- An offset has a position exactly when it lies in the text and no lone surrogate stands
before it on its line. -/
theorem ofOffset_eq_ok_iff (text : List CodePoint) (offset : Int) (p : Position) :
    ofOffset text offset = .ok p ↔
      ∃ n : Nat, offset = n ∧ n ≤ text.length ∧ Text.isWhole (lastLine (text.take n)) = true ∧
        behind (text.take n) = p := by
  rcases inside_or_outside text offset with ⟨n, rfl, hn⟩ | houtside
  · rcases ofOffset_natCast_cases hn with ⟨hwhole, hok⟩ | ⟨hlone, cause, herror⟩
    · rw [hok]
      constructor
      · intro h
        exact ⟨n, rfl, hn, hwhole, Except.ok.inj h⟩
      · rintro ⟨m, hm, -, -, rfl⟩
        rw [Int.ofNat_inj.mp hm]
    · rw [herror]
      refine iff_of_false nofun ?_
      rintro ⟨m, hm, -, hwhole, -⟩
      obtain rfl := Int.ofNat_inj.mp hm
      rw [hwhole] at hlone
      cases hlone
  · rw [ofOffset_of_outside houtside]
    refine iff_of_false nofun ?_
    rintro ⟨n, rfl, hn, -⟩
    omega

/-- Positions are in the order of their offsets. -/
theorem ofOffset_lt_iff {text : List CodePoint} {m n : Int} {p q : Position}
    (hp : ofOffset text m = .ok p) (hq : ofOffset text n = .ok q) : p < q ↔ m < n := by
  obtain ⟨first, rfl, hfirst, -, rfl⟩ := (ofOffset_eq_ok_iff text m p).mp hp
  obtain ⟨later, rfl, hlater, -, rfl⟩ := (ofOffset_eq_ok_iff text n q).mp hq
  constructor
  · intro hlt
    by_contra hge
    have hle : behind (text.take later) ≤ behind (text.take first) :=
      behind_take_le (by omega) hfirst
    exact not_lt_iff.mpr hle hlt
  · intro hlt
    exact behind_take_lt (by omega) hlater

theorem ofOffset_le_iff {text : List CodePoint} {m n : Int} {p q : Position}
    (hp : ofOffset text m = .ok p) (hq : ofOffset text n = .ok q) : p ≤ q ↔ m ≤ n := by
  rw [← not_lt_iff, ofOffset_lt_iff hq hp, Int.not_lt]

/-- An offset is named by its position, unless the text is too long for that. -/
theorem ofOffset_of_place {text : List CodePoint} {offset : Int} {p : Position}
    (hplace : place text offset = .ok p) : ofOffset text offset = .ok p := by
  obtain ⟨n, hn, hinside, hwhole, hp, -⟩ := (place_eq_ok_iff _ _ _).mp hplace
  exact (ofOffset_eq_ok_iff _ _ _).mpr ⟨n, hn, hinside, hwhole, hp⟩

theorem exists_place_iff {text : List CodePoint} (htext : IsMeasurable text)
    (offset : Int) : (∃ p, place text offset = .ok p) ↔ 0 ≤ offset ∧ offset ≤ text.length := by
  constructor
  · rintro ⟨p, hplace⟩
    obtain ⟨n, rfl, hn, -⟩ := (place_eq_ok_iff _ _ _).mp hplace
    omega
  · rintro ⟨hlow, hhigh⟩
    refine ⟨behind (text.take offset.toNat), (place_eq_ok_iff _ _ _).mpr
      ⟨offset.toNat, ?_, ?_, isWhole_lastLine_take htext.whole _, rfl,
        isNameable_behind_take htext.short _⟩⟩
    · omega
    · omega

end Position

/-- The other range lies between the ends of the range. -/
def Range.Contains (range inner : Range) : Prop :=
  range.start ≤ inner.start ∧ inner.stop ≤ range.stop

/-- A node has a range exactly when both of its ends can be named. -/
theorem Node.range_eq_ok_iff {node : Node} {text : List CodePoint} {range : Range} :
    node.range text = .ok range ↔
      ∃ span, node.span = some span ∧ Position.place text span.start = .ok range.start ∧
        Position.place text span.stop = .ok range.stop := by
  rcases hspan : node.span with _ | span
  · simp [Node.range, hspan]
  · simp [Node.range, hspan, Range.ofSpan_eq_ok_iff]

theorem Node.exists_range_iff {text : List CodePoint}
    (htext : Position.IsMeasurable text) (node : Node) :
    (∃ range, node.range text = .ok range) ↔
      ∃ span, node.span = some span ∧ (0 ≤ span.start ∧ span.start ≤ text.length) ∧
        0 ≤ span.stop ∧ span.stop ≤ text.length := by
  constructor
  · rintro ⟨range, hrange⟩
    obtain ⟨span, hspan, hstart, hstop⟩ := Node.range_eq_ok_iff.mp hrange
    exact ⟨span, hspan, (Position.exists_place_iff htext _).mp ⟨_, hstart⟩,
      (Position.exists_place_iff htext _).mp ⟨_, hstop⟩⟩
  · rintro ⟨span, hspan, hstart, hstop⟩
    obtain ⟨first, hfirst⟩ := (Position.exists_place_iff htext _).mpr hstart
    obtain ⟨last, hlast⟩ := (Position.exists_place_iff htext _).mpr hstop
    exact ⟨⟨first, last⟩, Node.range_eq_ok_iff.mpr ⟨span, hspan, hfirst, hlast⟩⟩

/-- Both ends of the range of a node are positions of the ends of its span. -/
theorem Node.ofOffset_of_range {node : Node} {text : List CodePoint} {span : Span} {range : Range}
    (hspan : node.span = some span) (hrange : node.range text = .ok range) :
    Position.ofOffset text span.start = .ok range.start ∧
      Position.ofOffset text span.stop = .ok range.stop := by
  obtain ⟨given, hgiven, hstart, hstop⟩ := Node.range_eq_ok_iff.mp hrange
  obtain rfl := Option.some.inj (hspan.symm.trans hgiven)
  exact ⟨Position.ofOffset_of_place hstart, Position.ofOffset_of_place hstop⟩

namespace Position

/-- In a text without lone surrogates a position counts the newlines in front of its offset and
the UTF-16 units behind the last of them, which is what a look-up among the starts of lines, all
in order, finds.  Later offsets have later positions.  In a text of fewer than 2^31 units a node
has a range exactly when both of its ends lie in the text; ranges are in order, and lie in each
other, as the spans do. -/
theorem positions_count_lines_and_units (chars : List Char) :
    let text := Text.glyphs chars
    ((lineStarts text).Pairwise (· < ·) ∧ ∀ o : Nat, o ≤ text.length →
      ofOffset text o = .ok ⟨(text.take o).count (.char '\n'),
        (Text.utf16 (lastLine (text.take o))).length⟩ ∧
      ofOffset text o = .ok (ofStarts text o)) ∧
    (∀ (m n : Int) (p q : Position), ofOffset text m = .ok p → ofOffset text n = .ok q →
      (p < q ↔ m < n)) ∧
    ((Text.utf16 text).length < 2 ^ 31 → ∀ node : Node,
      (∃ range, node.range text = .ok range) ↔
        ∃ span, node.span = some span ∧ (0 ≤ span.start ∧ span.start ≤ text.length) ∧
          0 ≤ span.stop ∧ span.stop ≤ text.length) ∧
    ∀ (node : Node) (span : Span) (range : Range), node.span = some span →
      node.range text = .ok range →
      ofOffset text span.start = .ok range.start ∧ ofOffset text span.stop = .ok range.stop ∧
      (range.start ≤ range.stop ↔ span.start ≤ span.stop) ∧
      ∀ (other : Node) (inner : Span) (shown : Range), other.span = some inner →
        other.range text = .ok shown → (range.Contains shown ↔ span.Contains inner) := by
  intro text
  have hwhole : Text.isWhole text = true := Text.isWhole_glyphs chars
  refine ⟨⟨pairwise_lineStarts text, fun o ho => ?_⟩, fun m n p q => ofOffset_lt_iff,
    fun hsize => ?_, fun node span range hspan hrange => ?_⟩
  · rw [ofOffset_natCast ho (isWhole_lastLine_take hwhole o), ofStarts_eq ho,
      Text.length_utf16, ← behind_eq]
    exact ⟨rfl, rfl⟩
  · rw [Text.length_utf16] at hsize
    exact Node.exists_range_iff ⟨hwhole, Nat.le_of_lt_succ hsize⟩
  · obtain ⟨hstart, hstop⟩ := Node.ofOffset_of_range hspan hrange
    refine ⟨hstart, hstop, ofOffset_le_iff hstart hstop, ?_⟩
    intro other inner shown hinner hshown
    obtain ⟨hfirst, hlast⟩ := Node.ofOffset_of_range hinner hshown
    exact and_congr (ofOffset_le_iff hstart hfirst) (ofOffset_le_iff hlast hstop)

/-- A node behind a newline and a character of two units, in a text of two lines. -/
theorem positions_count_lines_and_units_behind_pair :
    let text := Text.glyphs ['x', '\n', Char.ofNat 0x1f600, 'y', 'z']
    let node : Node := { span := some ⟨3, 4⟩ }
    (Text.utf16 text).length < 2 ^ 31 ∧ node.range text = .ok ⟨⟨1, 2⟩, ⟨1, 3⟩⟩ ∧
      ofOffset text 3 = .ok ⟨1, 2⟩ ∧ (⟨1, 2⟩ : Position) < ⟨1, 3⟩ := by
  intro text node
  obtain ⟨⟨-, hcounts⟩, hincreasing, hranges, hordered⟩ :=
    positions_count_lines_and_units ['x', '\n', Char.ofNat 0x1f600, 'y', 'z']
  have hsize : (Text.utf16 text).length < 2 ^ 31 := by decide
  obtain ⟨⟨start, stop⟩, hrange⟩ := (hranges hsize node).mpr ⟨⟨3, 4⟩, rfl, by decide, by decide⟩
  obtain ⟨hstart, hstop, -⟩ := hordered node ⟨3, 4⟩ _ rfl hrange
  have hthree : ofOffset text (3 : Nat) = .ok ⟨1, 2⟩ := (hcounts 3 (by decide)).1
  have hfour : ofOffset text (4 : Nat) = .ok ⟨1, 3⟩ := (hcounts 4 (by decide)).1
  obtain rfl : start = ⟨1, 2⟩ := Except.ok.inj (hstart.symm.trans hthree)
  obtain rfl : stop = ⟨1, 3⟩ := Except.ok.inj (hstop.symm.trans hfour)
  exact ⟨hsize, hrange, hthree, (hincreasing _ _ _ _ hthree hfour).mpr (by decide)⟩

end Position

end EditorBridge
