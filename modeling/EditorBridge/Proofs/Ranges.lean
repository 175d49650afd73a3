/-
Ranges of a text.  An offset can be named to the editor when it lies in the text and its
position has no coordinate that is too large; in a text that is not too long every offset
can.  Both ends of a range are positions of the text and lead back to the span it was
taken from.  The range of a node is that of its span.
-/
import EditorBridge.Definition
import EditorBridge.Proofs.Outcomes
import EditorBridge.Proofs.PositionInverse

namespace EditorBridge

namespace Position

theorem le_iff {p q : Position} :
    p ≤ q ↔ p.line < q.line ∨ (p.line = q.line ∧ p.character ≤ q.character) := Iff.rfl

/-- No coordinate is too large for the protocol. -/
def IsNameable (p : Position) : Prop := p.line ≤ maxCoordinate ∧ p.character ≤ maxCoordinate

instance (p : Position) : Decidable p.IsNameable := inferInstanceAs (Decidable (_ ∧ _))

/-- A check passes a position as it is, or refuses it for a coordinate. -/
theorem check_cases (p : Position) :
    p.IsNameable ∧ p.check = .ok p ∨ ¬p.IsNameable ∧ ∃ cause, p.check = .error cause := by
  rw [IsNameable, ← Nat.not_lt, ← Nat.not_lt, check]
  by_cases hline : maxCoordinate < p.line
  · simp [hline]
  · by_cases hcharacter : maxCoordinate < p.character
    · simp [hline, hcharacter]
    · simp [hline, hcharacter]

/-- Every offset inside a text can be named to the editor: the text has no lone surrogate
and is not too long. -/
structure IsMeasurable (text : List CodePoint) : Prop where
  whole : Text.isWhole text = true
  short : unitLength text ≤ maxCoordinate

instance (text : List CodePoint) : Decidable (IsMeasurable text) :=
  decidable_of_iff (Text.isWhole text = true ∧ unitLength text ≤ maxCoordinate)
    ⟨fun h => ⟨h.1, h.2⟩, fun h => ⟨h.whole, h.short⟩⟩

theorem isWhole_lastLine_take {text : List CodePoint} (hwhole : Text.isWhole text = true)
    (n : Nat) : Text.isWhole (lastLine (text.take n)) = true :=
  Text.isWhole_of_subset (List.Subset.trans (lastLine_subset _) (List.take_subset n text)) hwhole

theorem ofOffset_of_outside {text : List CodePoint} {offset : Int}
    (hoffset : offset < 0 ∨ (text.length : Int) < offset) :
    ofOffset text offset = .error (.position (.offsetOutside offset text.length)) := by
  have houtside : (offset < 0 || (text.length : Int) < offset) = true := by simpa using hoffset
  rw [ofOffset, if_pos houtside]

/-- Inside a text an offset has a position, unless a lone surrogate stands before it. -/
theorem ofOffset_natCast_cases {text : List CodePoint} {n : Nat} (hn : n ≤ text.length) :
    Text.isWhole (lastLine (text.take n)) = true ∧ ofOffset text n = .ok (behind (text.take n)) ∨
      Text.isWhole (lastLine (text.take n)) = false ∧
        ∃ cause, ofOffset text n = .error (.encoding cause) := by
  have hinside : ¬((n : Int) < 0 || (text.length : Int) < n) = true := by
    simp only [Bool.or_eq_true, decide_eq_true_eq]
    omega
  rw [ofOffset, if_neg hinside, Int.toNat_natCast]
  cases hrefused : Text.refusal? .utf16 (lastLine (text.take n)) with
  | none => exact Or.inl ⟨Text.refusal?_eq_none_iff.mp hrefused, rfl⟩
  | some cause =>
      refine Or.inr ⟨Bool.eq_false_iff.mpr fun hwhole => ?_, cause, rfl⟩
      rw [Text.refusal?_eq_none_iff.mpr hwhole] at hrefused
      cases hrefused

theorem ofOffset_natCast {text : List CodePoint} {n : Nat} (hn : n ≤ text.length)
    (hwhole : Text.isWhole (lastLine (text.take n)) = true) :
    ofOffset text n = .ok (behind (text.take n)) := by
  rcases ofOffset_natCast_cases hn with ⟨-, hok⟩ | ⟨hlone, -⟩
  · exact hok
  · rw [hwhole] at hlone
    cases hlone

theorem place_natCast {text : List CodePoint} {n : Nat} (hn : n ≤ text.length)
    (hwhole : Text.isWhole (lastLine (text.take n)) = true) :
    place text n = (behind (text.take n)).check.mapError .coordinate := by
  rw [place, ofOffset_natCast hn hwhole]
  rfl

theorem place_of_outside {text : List CodePoint} {offset : Int}
    (hoffset : offset < 0 ∨ (text.length : Int) < offset) :
    place text offset = .error (.position (.offsetOutside offset text.length)) := by
  rw [place, ofOffset_of_outside hoffset]
  rfl

/-- An offset is a number of characters of the text, or it lies outside. -/
theorem inside_or_outside (text : List CodePoint) (offset : Int) :
    (∃ n : Nat, offset = n ∧ n ≤ text.length) ∨ offset < 0 ∨ (text.length : Int) < offset := by
  by_cases hoffset : offset < 0 ∨ (text.length : Int) < offset
  · exact Or.inr hoffset
  · exact Or.inl ⟨offset.toNat, by omega, by omega⟩

theorem place_eq_ok_iff (text : List CodePoint) (offset : Int) (p : Position) :
    place text offset = .ok p ↔
      ∃ n : Nat, offset = n ∧ n ≤ text.length ∧ Text.isWhole (lastLine (text.take n)) = true ∧
        behind (text.take n) = p ∧ p.IsNameable := by
  rcases inside_or_outside text offset with ⟨n, rfl, hn⟩ | houtside
  · rcases ofOffset_natCast_cases hn with ⟨hwhole, -⟩ | ⟨hlone, cause, herror⟩
    · rw [place_natCast hn hwhole]
      rcases check_cases (behind (text.take n)) with ⟨hnameable, hcheck⟩ | ⟨hlarge, cause, hcheck⟩
      · rw [hcheck]
        constructor
        · intro h
          obtain rfl := Except.ok.inj h
          exact ⟨n, rfl, hn, hwhole, rfl, hnameable⟩
        · rintro ⟨m, hm, -, -, rfl, -⟩
          rw [Int.ofNat_inj.mp hm]
          rfl
      · rw [hcheck]
        refine iff_of_false (fun h => nomatch h) ?_
        rintro ⟨m, hm, -, -, rfl, hnameable⟩
        obtain rfl := Int.ofNat_inj.mp hm
        exact hlarge hnameable
    · rw [place, herror]
      refine iff_of_false (fun h => nomatch h) ?_
      rintro ⟨m, hm, -, hwhole, -⟩
      obtain rfl := Int.ofNat_inj.mp hm
      rw [hwhole] at hlone
      cases hlone
  · rw [place_of_outside houtside]
    refine iff_of_false (fun h => nomatch h) ?_
    rintro ⟨n, rfl, hn, -⟩
    omega

/-- An offset is refused as no position exactly when it lies outside the text. -/
theorem place_eq_position_iff (text : List CodePoint) (offset : Int) (cause : PositionError) :
    place text offset = .error (.position cause) ↔
      (offset < 0 ∨ (text.length : Int) < offset) ∧ cause = .offsetOutside offset text.length := by
  rcases inside_or_outside text offset with ⟨n, rfl, hn⟩ | houtside
  · have hinside : ¬((n : Int) < 0 ∨ (text.length : Int) < n) := by omega
    refine iff_of_false ?_ (fun h => hinside h.1)
    rcases ofOffset_natCast_cases hn with ⟨hwhole, -⟩ | ⟨-, cause, herror⟩
    · rw [place_natCast hn hwhole]
      rcases (behind (text.take n)).check with error | p
      · exact fun h => nomatch h
      · exact fun h => nomatch h
    · rw [place, herror]
      exact fun h => nomatch h
  · rw [place_of_outside houtside]
    simp [houtside, eq_comm]

/-- Lines and characters together are no more than the units passed. -/
theorem foldl_step_le (text : List CodePoint) (p : Position) :
    (text.foldl step p).line + (text.foldl step p).character ≤
      p.line + p.character + unitLength text := by
  induction text generalizing p with
  | nil => exact Nat.le_refl _
  | cons c rest ih =>
      have hrest := ih (p.step c)
      have hwidth := unitWidth_pos c
      have hstep : (p.step c).line + (p.step c).character ≤ p.line + p.character + unitWidth c := by
        by_cases hc : c = .char '\n'
        · simp only [step, hc, if_true] at hwidth ⊢
          omega
        · simp only [step, hc, if_false]
          omega
      rw [List.foldl_cons, unitLength_cons]
      omega

theorem unitLength_take_le (text : List CodePoint) (n : Nat) :
    unitLength (text.take n) ≤ unitLength text := by
  conv => rhs; rw [← List.take_append_drop n text, unitLength_append]
  exact Nat.le_add_right _ _

/-- In a text of so few units every offset can be named. -/
theorem isNameable_behind_take {text : List CodePoint} (hlength : unitLength text ≤ maxCoordinate)
    (n : Nat) : (behind (text.take n)).IsNameable := by
  have hsum := foldl_step_le (text.take n) ⟨0, 0⟩
  have htake := unitLength_take_le text n
  rw [IsNameable, behind]
  simp only at hsum
  omega

theorem behind_take_le {text : List CodePoint} {m n : Nat} (hmn : m ≤ n) (hn : n ≤ text.length) :
    behind (text.take m) ≤ behind (text.take n) := by
  rcases Nat.lt_or_eq_of_le hmn with hlt | rfl
  · have hbefore := behind_take_lt hlt hn
    rw [lt_iff] at hbefore
    rw [le_iff]
    omega
  · exact le_iff.mpr (Or.inr ⟨rfl, Nat.le_refl _⟩)

end Position

/-- Both ends of the span lie in the text, in order. -/
def Span.Within (span : Span) (text : List CodePoint) : Prop :=
  0 ≤ span.start ∧ span.start ≤ span.stop ∧ span.stop ≤ text.length

instance (span : Span) (text : List CodePoint) : Decidable (span.Within text) :=
  inferInstanceAs (Decidable (_ ∧ _ ∧ _))

namespace Range

/-- No coordinate of the range is too large for the protocol. -/
def IsNameable (range : Range) : Prop := range.start.IsNameable ∧ range.stop.IsNameable

instance (range : Range) : Decidable range.IsNameable := inferInstanceAs (Decidable (_ ∧ _))

/-- Both ends of the range are positions of the text, in order: they lead to the ends of
a span that lies in it. -/
def Marks (range : Range) (text : List CodePoint) (span : Span) : Prop :=
  (∃ n : Nat, span.start = n ∧
    Position.toOffset text range.start.line range.start.character = .ok n) ∧
  (∃ n : Nat, span.stop = n ∧
    Position.toOffset text range.stop.line range.stop.character = .ok n) ∧
  span.start ≤ span.stop ∧ range.start ≤ range.stop

theorem ofSpan_eq_ok_iff (text : List CodePoint) (span : Span) (range : Range) :
    ofSpan text span = .ok range ↔
      Position.place text span.start = .ok range.start ∧
        Position.place text span.stop = .ok range.stop := by
  rw [ofSpan]
  constructor
  · intro h
    obtain ⟨start, hstart, h⟩ := bind_eq_ok_iff.mp h
    obtain ⟨stop, hstop, h⟩ := bind_eq_ok_iff.mp h
    obtain rfl := Except.ok.inj h
    exact ⟨hstart, hstop⟩
  · rintro ⟨hstart, hstop⟩
    rw [hstart, hstop]
    rfl

/-- The range of a span leads back to the span. -/
theorem marks_of_ofSpan {text : List CodePoint} {span : Span} {range : Range}
    (hrange : ofSpan text span = .ok range) (hspan : span.start ≤ span.stop) :
    range.Marks text span := by
  obtain ⟨hstart, hstop⟩ := (ofSpan_eq_ok_iff text span range).mp hrange
  obtain ⟨m, hm, hmlength, -, hmposition, -⟩ := (Position.place_eq_ok_iff _ _ _).mp hstart
  obtain ⟨n, hn, hnlength, -, hnposition, -⟩ := (Position.place_eq_ok_iff _ _ _).mp hstop
  refine ⟨⟨m, hm, (Position.toOffset_natCast_iff _ _ _).mpr ⟨hmlength, hmposition⟩⟩,
    ⟨n, hn, (Position.toOffset_natCast_iff _ _ _).mpr ⟨hnlength, hnposition⟩⟩, hspan, ?_⟩
  rw [← hmposition, ← hnposition]
  exact Position.behind_take_le (by omega) hnlength

/-- In a text that can be measured, every span that lies in it has a range. -/
theorem exists_ofSpan {text : List CodePoint} (htext : Position.IsMeasurable text)
    {span : Span} (hspan : span.Within text) : ∃ range, ofSpan text span = .ok range := by
  obtain ⟨hstart, hle, hstop⟩ := hspan
  obtain ⟨m, hm⟩ := Int.eq_ofNat_of_zero_le hstart
  obtain ⟨n, hn⟩ := Int.eq_ofNat_of_zero_le (Int.le_trans hstart hle)
  refine ⟨⟨Position.behind (text.take m), Position.behind (text.take n)⟩,
    (ofSpan_eq_ok_iff _ _ _).mpr ⟨(Position.place_eq_ok_iff _ _ _).mpr ?_,
      (Position.place_eq_ok_iff _ _ _).mpr ?_⟩⟩
  · exact ⟨m, hm, by omega, Position.isWhole_lastLine_take htext.whole m, rfl,
      Position.isNameable_behind_take htext.short m⟩
  · exact ⟨n, hn, by omega, Position.isWhole_lastLine_take htext.whole n, rfl,
      Position.isNameable_behind_take htext.short n⟩

/-- A span is refused as no range of the text only when one of its ends lies outside. -/
theorem not_within_of_ofSpan {text : List CodePoint} {span : Span} {cause : PositionError}
    (hspan : ofSpan text span = .error (.position cause)) : ¬span.Within text := by
  rintro ⟨hstart, hle, hstop⟩
  rw [ofSpan] at hspan
  rcases bind_eq_error_iff.mp hspan with hfirst | ⟨start, -, hspan⟩
  · have houtside := ((Position.place_eq_position_iff _ _ _).mp hfirst).1
    omega
  · rcases bind_eq_error_iff.mp hspan with hlast | ⟨stop, -, hspan⟩
    · have houtside := ((Position.place_eq_position_iff _ _ _).mp hlast).1
      omega
    · exact nomatch hspan

end Range

namespace Graph

/-- Only a node of the tables has a span. -/
theorem lt_size_of_span {g : Graph} {id : NodeId} {span : Span}
    (hspan : (g.node id).span = some span) : id < g.nodes.size := by
  rcases Nat.lt_or_ge id g.nodes.size with hid | hid
  · exact hid
  · rw [node, Array.getD, dif_neg (Nat.not_lt.mpr hid)] at hspan
    exact nomatch hspan

/-- The range of a node that has a place is that of its span. -/
theorem range_of_isPlaced {g : Graph} {id : NodeId} (hplaced : (g.node id).isPlaced = true)
    (text : List CodePoint) :
    ∃ span, (g.node id).span = some span ∧ g.range text id = Range.ofSpan text span := by
  obtain ⟨span, hspan⟩ := Option.isSome_iff_exists.mp hplaced
  refine ⟨span, hspan, ?_⟩
  rw [range, Node.range, hspan]

/-- The node that the range around a declaration is taken from: the nearest one above it that
has a place, or else the declaration itself. -/
def around (g : Graph) (block id : NodeId) : NodeId :=
  ((g.ancestors block id).find? fun above => (g.node above).isPlaced).getD id

theorem enclosingRange_eq (g : Graph) (block id : NodeId) (text : List CodePoint) :
    g.enclosingRange (some block) id text = g.range text (g.around block id) := by
  rw [enclosingRange, around, Option.bind_some]
  rcases (g.ancestors block id).find? fun above => (g.node above).isPlaced with _ | above
  · rfl
  · rfl

theorem isPlaced_around {g : Graph} {block id : NodeId} (hid : (g.node id).isPlaced = true) :
    (g.node (g.around block id)).isPlaced = true := by
  rw [around]
  rcases habove : (g.ancestors block id).find? fun above => (g.node above).isPlaced with _ | above
  · exact hid
  · exact List.find?_some (p := fun above => (g.node above).isPlaced) habove

end Graph

end EditorBridge
