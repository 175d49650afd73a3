/-
Positions and offsets undo each other.  A walk over the text gives every offset
its position, a search line by line and then unit by unit finds the offset of a
position, and the search refuses exactly the pairs of numbers that the walk never
comes to.
-/
import EditorBridge.Position

namespace EditorBridge

/-- A shorter beginning of a text and what a longer one adds to it. -/
theorem Text.take_append_drop_take {m n : Nat} (hmn : m ≤ n) (text : List CodePoint) :
    text.take m ++ (text.take n).drop m = text.take n := by
  have hsplit := List.take_append_drop m (text.take n)
  rwa [List.take_take, Nat.min_eq_left hmn] at hsplit

theorem unitWidth_pos (c : CodePoint) : 0 < unitWidth c := by
  unfold unitWidth
  split <;> omega

@[simp] theorem unitLength_nil : unitLength [] = 0 := rfl

@[simp] theorem unitLength_cons (c : CodePoint) (text : List CodePoint) :
    unitLength (c :: text) = unitWidth c + unitLength text := rfl

theorem unitLength_append (front back : List CodePoint) :
    unitLength (front ++ back) = unitLength front + unitLength back := by
  induction front with
  | nil => simp
  | cons c rest ih => simp [ih, Nat.add_assoc]

namespace Position

theorem lt_iff {p q : Position} :
    p < q ↔ p.line < q.line ∨ (p.line = q.line ∧ p.character < q.character) := Iff.rfl

theorem lt_trans {p q r : Position} (hpq : p < q) (hqr : q < r) : p < r := by
  rw [lt_iff] at *
  omega

theorem lt_step (p : Position) (c : CodePoint) : p < p.step c := by
  have hwidth := unitWidth_pos c
  unfold step
  rw [lt_iff]
  split
  · exact Or.inl (Nat.lt_succ_self p.line)
  · exact Or.inr ⟨rfl, Nat.lt_add_of_pos_right hwidth⟩

/-- Every further character leads to a later position. -/
theorem lt_foldl_step {text : List CodePoint} (htext : text ≠ []) (p : Position) :
    p < text.foldl step p := by
  induction text generalizing p with
  | nil => exact absurd rfl htext
  | cons c rest ih =>
      rw [List.foldl_cons]
      by_cases hrest : rest = []
      · subst hrest
        exact lt_step p c
      · exact lt_trans (lt_step p c) (ih hrest (p.step c))

theorem line_foldl_step (text : List CodePoint) (p : Position) :
    (text.foldl step p).line = p.line + text.count (.char '\n') := by
  induction text generalizing p with
  | nil => rfl
  | cons c rest ih =>
      rw [List.foldl_cons, ih, List.count_cons]
      by_cases hc : c = .char '\n'
      · simp only [step, hc, if_true, beq_self_eq_true]
        omega
      · simp [step, hc]

/-- Within a line only the units add up. -/
theorem foldl_step_of_not_mem {text : List CodePoint} (htext : (.char '\n') ∉ text) (p : Position) :
    text.foldl step p = ⟨p.line, p.character + unitLength text⟩ := by
  induction text generalizing p with
  | nil => rfl
  | cons c rest ih =>
      simp only [List.mem_cons, not_or] at htext
      have hc : c ≠ .char '\n' := Ne.symm htext.1
      rw [List.foldl_cons, ih htext.2]
      simp only [step, hc, if_false, unitLength_cons, Nat.add_assoc]

theorem behind_append (front back : List CodePoint) :
    behind (front ++ back) = back.foldl step (behind front) := List.foldl_append

/-- A longer part of the text ends at a later position. -/
theorem behind_take_lt {text : List CodePoint} {m n : Nat} (hmn : m < n) (hn : n ≤ text.length) :
    behind (text.take m) < behind (text.take n) := by
  have hrest : (text.take n).drop m ≠ [] := by
    intro hnil
    have hle := List.drop_eq_nil_iff.mp hnil
    rw [List.length_take] at hle
    omega
  rw [← Text.take_append_drop_take (Nat.le_of_lt hmn) text, behind_append]
  exact lt_foldl_step hrest _

theorem line_behind_take_le (text : List CodePoint) (n : Nat) :
    (behind (text.take n)).line ≤ text.count (.char '\n') := by
  rw [behind, line_foldl_step, Nat.zero_add]
  exact (List.take_sublist n text).count_le (.char '\n')

/-- What stands in front of a line ends where that line begins. -/
theorem exists_append_dropLines {line : Nat} {text : List CodePoint}
    (hline : line ≤ text.count (.char '\n')) :
    ∃ front, text = front ++ dropLines line text ∧
      ∀ p, front.foldl step p = if line = 0 then p else ⟨p.line + line, 0⟩ := by
  induction text generalizing line with
  | nil =>
      have hzero : line = 0 := by simpa using hline
      subst hzero
      exact ⟨[], rfl, fun p => rfl⟩
  | cons c rest ih =>
      cases line with
      | zero => exact ⟨[], rfl, fun p => rfl⟩
      | succ line =>
          by_cases hc : c = .char '\n'
          · subst hc
            have hrest : line ≤ rest.count (.char '\n') := by simpa using hline
            obtain ⟨front, hfront, hfold⟩ := ih hrest
            refine ⟨(.char '\n') :: front, ?_, ?_⟩
            · simpa [dropLines] using hfront
            · intro p
              rw [List.foldl_cons, hfold]
              by_cases hzero : line = 0
              · simp [step, hzero]
              · simp only [step, hzero, if_true, if_false, Nat.succ_ne_zero, mk.injEq, and_true]
                omega
          · have hrest : line + 1 ≤ rest.count (.char '\n') := by simpa [hc] using hline
            obtain ⟨front, hfront, hfold⟩ := ih hrest
            refine ⟨c :: front, ?_, ?_⟩
            · simpa [dropLines, hc] using hfront
            · intro p
              rw [List.foldl_cons, hfold]
              simp [step, hc]

/-- A line begins at character zero of itself. -/
theorem behind_lineStart {line : Nat} {text : List CodePoint}
    (hline : line ≤ text.count (.char '\n')) :
    ∃ front, text = front ++ dropLines line text ∧ front.length = lineStart text line ∧
      behind front = ⟨line, 0⟩ := by
  obtain ⟨front, hfront, hfold⟩ := exists_append_dropLines hline
  refine ⟨front, hfront, ?_, ?_⟩
  · have hlength := congrArg List.length hfront
    rw [List.length_append] at hlength
    rw [lineStart]
    omega
  · rw [behind, hfold]
    by_cases hzero : line = 0
    · simp [hzero]
    · simp [hzero]

/-- A search succeeds with the characters of the line that make up the units. -/
theorem seek_eq_ok_iff (units : Nat) (rest : List CodePoint) (n : Nat) :
    seek units rest = .ok n ↔
      n ≤ rest.length ∧ (.char '\n') ∉ rest.take n ∧ unitLength (rest.take n) = units := by
  fun_induction seek units rest generalizing n with
  | case1 rest =>
      cases n with
      | zero => simp
      | succ n =>
          cases rest with
          | nil => simp
          | cons c rest =>
              have hwidth := unitWidth_pos c
              simp only [Except.ok.injEq, List.take_succ_cons, unitLength_cons]
              omega
  | case2 units => simp
  | case3 units rest =>
      cases n with
      | zero => simp
      | succ n => simp
  | case4 units c rest hc hwidth ih =>
      cases n with
      | zero => cases seek (units + 1 - unitWidth c) rest <;> simp [Except.map]
      | succ n =>
          have hstep : (seek (units + 1 - unitWidth c) rest).map (· + 1) = .ok (n + 1) ↔
              seek (units + 1 - unitWidth c) rest = .ok n := by
            cases seek (units + 1 - unitWidth c) rest <;> simp [Except.map]
          have hunits : unitLength (rest.take n) = units + 1 - unitWidth c ↔
              unitWidth c + unitLength (rest.take n) = units + 1 := by omega
          rw [hstep, ih, hunits]
          simp only [List.length_cons, List.take_succ_cons, List.mem_cons, unitLength_cons,
            Ne.symm hc, false_or, Nat.add_le_add_iff_right]
  | case5 units c rest hc hwidth =>
      cases n with
      | zero => simp
      | succ n =>
          simp only [List.take_succ_cons, unitLength_cons]
          constructor
          · intro h
            exact nomatch h
          · intro h
            omega

/-- A search runs past the end when the line has too few units. -/
theorem seek_eq_pastEnd_iff (units : Nat) (rest : List CodePoint) :
    seek units rest = .error .pastEnd ↔ unitLength (rest.takeWhile (· != .char '\n')) < units := by
  fun_induction seek units rest with
  | case1 rest => simp
  | case2 units => simp
  | case3 units rest => simp
  | case4 units c rest hc hwidth ih =>
      have hmap : (seek (units + 1 - unitWidth c) rest).map (· + 1) = .error .pastEnd ↔
          seek (units + 1 - unitWidth c) rest = .error .pastEnd := by
        cases seek (units + 1 - unitWidth c) rest <;> simp [Except.map]
      rw [hmap, ih, List.takeWhile_cons_of_pos (by simpa using hc), unitLength_cons]
      omega
  | case5 units c rest hc hwidth =>
      rw [List.takeWhile_cons_of_pos (by simpa using hc), unitLength_cons]
      simp only [Except.error.injEq, reduceCtorEq, false_iff]
      omega

/-- Whether a number of units ends inside a character of a line. -/
def Splits (line : List CodePoint) (units : Nat) : Prop :=
  ∃ front c back, line = front ++ c :: back ∧ unitLength front < units ∧
    units < unitLength front + unitWidth c

theorem splits_cons_iff {c : CodePoint} {line : List CodePoint} {units : Nat}
    (hwidth : unitWidth c ≤ units) :
    Splits (c :: line) units ↔ Splits line (units - unitWidth c) := by
  constructor
  · rintro ⟨front, d, back, hline, hlow, hhigh⟩
    cases front with
    | nil =>
        obtain ⟨rfl, rfl⟩ := List.cons.inj hline
        simp only [unitLength_nil] at hhigh
        omega
    | cons e front =>
        obtain ⟨rfl, hrest⟩ := List.cons.inj hline
        rw [unitLength_cons] at hlow hhigh
        exact ⟨front, d, back, hrest, by omega, by omega⟩
  · rintro ⟨front, d, back, hline, hlow, hhigh⟩
    refine ⟨c :: front, d, back, by rw [hline]; rfl, ?_, ?_⟩
    · rw [unitLength_cons]
      omega
    · rw [unitLength_cons]
      omega

theorem not_splits_of_unitLength_lt {line : List CodePoint} {units : Nat}
    (hunits : unitLength line < units) : ¬ Splits line units := by
  rintro ⟨front, c, back, rfl, hlow, hhigh⟩
  rw [unitLength_append, unitLength_cons] at hunits
  omega

/-- A search ends inside a character when the units do. -/
theorem seek_eq_insidePair_iff (units : Nat) (rest : List CodePoint) :
    seek units rest = .error .insidePair ↔ Splits (rest.takeWhile (· != .char '\n')) units := by
  fun_induction seek units rest with
  | case1 rest =>
      simp only [reduceCtorEq, false_iff]
      rintro ⟨front, c, back, hline, hlow, hhigh⟩
      exact Nat.not_lt_zero _ hlow
  | case2 units =>
      have hsplits : ¬ Splits [] (units + 1) :=
        not_splits_of_unitLength_lt (Nat.succ_pos units)
      simp [hsplits]
  | case3 units rest =>
      have hsplits : ¬ Splits [] (units + 1) :=
        not_splits_of_unitLength_lt (Nat.succ_pos units)
      simp [hsplits]
  | case4 units c rest hc hwidth ih =>
      have hmap : (seek (units + 1 - unitWidth c) rest).map (· + 1) = .error .insidePair ↔
          seek (units + 1 - unitWidth c) rest = .error .insidePair := by
        cases seek (units + 1 - unitWidth c) rest <;> simp [Except.map]
      rw [hmap, ih, List.takeWhile_cons_of_pos (by simpa using hc), splits_cons_iff hwidth]
  | case5 units c rest hc hwidth =>
      rw [List.takeWhile_cons_of_pos (by simpa using hc)]
      simp only [true_iff]
      exact ⟨[], c, _, rfl, Nat.succ_pos units, by simpa using hwidth⟩

/-- On a line of the text, a search leads to an offset exactly when the walk gives
that offset the position looked for. -/
theorem seek_dropLines_iff {text : List CodePoint} {line : Nat}
    (hline : line ≤ text.count (.char '\n'))
    (units n : Nat) :
    (∃ k, seek units (dropLines line text) = .ok k ∧ lineStart text line + k = n) ↔
      n ≤ text.length ∧ behind (text.take n) = ⟨line, units⟩ := by
  obtain ⟨front, hfront, hlength, hbehind⟩ := behind_lineStart hline
  have hsize : text.length = front.length + (dropLines line text).length := by
    rw [← List.length_append, ← hfront]
  have htake : ∀ k, text.take (front.length + k) = front ++ (dropLines line text).take k := by
    intro k
    rw [← List.take_length_add_append, ← hfront]
  constructor
  · rintro ⟨k, hseek, rfl⟩
    obtain ⟨hk, hnewline, hunits⟩ := (seek_eq_ok_iff _ _ _).mp hseek
    rw [← hlength, htake, behind_append, hbehind, foldl_step_of_not_mem hnewline, hunits]
    exact ⟨by omega, by rw [Nat.zero_add]⟩
  · rintro ⟨hn, hposition⟩
    -- an offset in front of the line has an earlier position than its start
    have hstart : front.length ≤ n := by
      rcases Nat.lt_or_ge n front.length with hlt | hge
      · have hinside : front.length ≤ text.length := by omega
        have hearlier := behind_take_lt hlt hinside
        have hfirst : text.take front.length = front := by simpa using htake 0
        rw [hfirst, hbehind, hposition, lt_iff] at hearlier
        simp only at hearlier
        omega
      · exact hge
    obtain ⟨k, rfl⟩ := Nat.exists_eq_add_of_le hstart
    rw [htake, behind_append, hbehind] at hposition
    have hnewline : (.char '\n') ∉ (dropLines line text).take k := by
      have hsame := congrArg Position.line hposition
      rw [line_foldl_step] at hsame
      exact List.count_eq_zero.mp (by simpa using hsame)
    rw [foldl_step_of_not_mem hnewline] at hposition
    refine ⟨k, (seek_eq_ok_iff _ _ _).mpr ⟨by omega, hnewline, ?_⟩, by rw [hlength]⟩
    simpa using congrArg Position.character hposition

/-- Line and character as integers, as an editor may name them. -/
def coordinates (p : Position) : Int × Int := (p.line, p.character)

theorem lastLine_subset (text : List CodePoint) : lastLine text ⊆ text := fun _ hc =>
  List.mem_reverse.mp ((List.takeWhile_sublist _).subset (List.mem_reverse.mp hc))

/-- In a text without lone surrogates nothing but its ends limits an offset. -/
theorem ofOffset_of_isWhole {text : List CodePoint} (hwhole : Text.isWhole text = true)
    (offset : Int) :
    ofOffset text offset =
      if offset < 0 || (text.length : Int) < offset then
        .error (.position (.offsetOutside offset text.length))
      else .ok (behind (text.take offset.toNat)) := by
  have hline : Text.isWhole (lastLine (text.take offset.toNat)) = true :=
    Text.isWhole_of_subset (List.Subset.trans (lastLine_subset _) (List.take_subset _ _)) hwhole
  rw [ofOffset, Text.refusal?_eq_none_iff.mpr hline]

theorem ofOffset_coordinates_iff {text : List CodePoint} (hwhole : Text.isWhole text = true)
    (line character offset : Int) :
    (ofOffset text offset).map coordinates = .ok (line, character) ↔
      ∃ n p, offset = (n : Nat) ∧ (line, character) = coordinates p ∧ n ≤ text.length ∧
        behind (text.take n) = p := by
  rw [ofOffset_of_isWhole hwhole]
  split
  next houtside =>
      constructor
      · intro h
        exact nomatch h
      · rintro ⟨n, p, rfl, -, hn, -⟩
        simp only [Bool.or_eq_true, decide_eq_true_eq] at houtside
        omega
  next hinside =>
      simp only [Bool.or_eq_true, decide_eq_true_eq, not_or, Int.not_lt] at hinside
      simp only [Except.map, Except.ok.injEq]
      constructor
      · intro h
        exact ⟨offset.toNat, _, by omega, h.symm, by omega, rfl⟩
      · rintro ⟨n, p, rfl, hp, -, hbehind⟩
        rw [hp, Int.toNat_natCast, hbehind]

/-- On a line of the text the search alone decides. -/
theorem toOffset_eq_seek {text : List CodePoint} {line : Nat} (hline : line < lineCount text)
    (units : Nat) :
    toOffset text line units =
      match seek units (dropLines line text) with
      | .ok n => .ok (lineStart text line + n)
      | .error .pastEnd => .error (.pastLineEnd units line)
      | .error .insidePair => .error (.splitsPair units line) := by
  have hinside : ¬ ((line : Int) < 0 || (lineCount text : Int) ≤ line) = true := by
    simp only [Bool.or_eq_true, decide_eq_true_eq]
    omega
  have hunits : ¬ (units : Int) < 0 := by omega
  rw [toOffset, if_neg hinside, if_neg hunits]
  rfl

/-- The offset of a position in natural numbers. -/
theorem toOffset_natCast_iff (text : List CodePoint) (p : Position) (n : Nat) :
    toOffset text p.line p.character = .ok n ↔ n ≤ text.length ∧ behind (text.take n) = p := by
  by_cases hline : p.line < lineCount text
  · rw [toOffset_eq_seek hline, ← seek_dropLines_iff (Nat.le_of_lt_succ hline)]
    cases seek p.character (dropLines p.line text) with
    | ok k => simp
    | error cause => cases cause <;> simp
  · have houtside : ((p.line : Int) < 0 || (lineCount text : Int) ≤ p.line) = true := by
      simp only [Bool.or_eq_true, decide_eq_true_eq]
      omega
    rw [toOffset, if_pos houtside]
    constructor
    · intro h
      exact nomatch h
    · rintro ⟨-, rfl⟩
      exact absurd (Nat.lt_succ_of_le (line_behind_take_le text n)) hline

theorem toOffset_coordinates_iff (text : List CodePoint) (line character offset : Int) :
    (toOffset text line character).map Int.ofNat = .ok offset ↔
      ∃ n p, offset = (n : Nat) ∧ (line, character) = coordinates p ∧ n ≤ text.length ∧
        behind (text.take n) = p := by
  constructor
  · intro h
    have hline : 0 ≤ line := by
      rcases Int.lt_or_le line 0 with hlt | hge
      · simp [toOffset, hlt, Except.map] at h
      · exact hge
    have hcharacter : 0 ≤ character := by
      rcases Int.lt_or_le character 0 with hlt | hge
      · unfold toOffset at h
        split at h
        · exact nomatch h
        · exact nomatch h
      · exact hge
    obtain ⟨l, rfl⟩ := Int.eq_ofNat_of_zero_le hline
    obtain ⟨c, rfl⟩ := Int.eq_ofNat_of_zero_le hcharacter
    cases hoffset : toOffset text l c with
    | error cause => exact nomatch hoffset ▸ h
    | ok n =>
        rw [hoffset] at h
        have hn := (toOffset_natCast_iff text ⟨l, c⟩ n).mp hoffset
        exact ⟨n, ⟨l, c⟩, (Except.ok.inj h).symm, rfl, hn⟩
  · rintro ⟨n, p, rfl, hp, hn⟩
    obtain ⟨rfl, rfl⟩ := Prod.mk.inj hp
    rw [(toOffset_natCast_iff text p n).mpr hn]
    rfl

/-- Why a pair of numbers is the position of no offset: there is no such line, the
character is negative, the line has too few units, or a character is cut in two. -/
inductive Refusal (text : List CodePoint) : Int → Int → PositionError → Prop where
  | lineOutside {line character : Int} (hline : line < 0 ∨ (lineCount text : Int) ≤ line) :
      Refusal text line character (.lineOutside line (lineCount text))
  | negativeCharacter {line character : Int} (hlow : 0 ≤ line)
      (hhigh : line < (lineCount text : Int)) (hcharacter : character < 0) :
      Refusal text line character (.negativeCharacter character)
  | pastLineEnd {line character : Nat} (hline : line < lineCount text)
      (hcharacter : unitLength (lineText text line) < character) :
      Refusal text line character (.pastLineEnd character line)
  | splitsPair {line character : Nat} (hline : line < lineCount text)
      (hsplits : Splits (lineText text line) character) :
      Refusal text line character (.splitsPair character line)

theorem refusal_of_toOffset {text : List CodePoint} {line character : Int} {cause : PositionError}
    (h : toOffset text line character = .error cause) : Refusal text line character cause := by
  unfold toOffset at h
  split at h
  next hline =>
      obtain rfl := Except.error.inj h
      exact .lineOutside (by simpa using hline)
  next hline =>
      simp only [Bool.or_eq_true, decide_eq_true_eq, not_or, Int.not_lt, Int.not_le] at hline
      split at h
      next hcharacter =>
          obtain rfl := Except.error.inj h
          exact .negativeCharacter hline.1 hline.2 hcharacter
      next hcharacter =>
          obtain ⟨l, rfl⟩ := Int.eq_ofNat_of_zero_le hline.1
          obtain ⟨c, rfl⟩ := Int.eq_ofNat_of_zero_le (Int.not_lt.mp hcharacter)
          have hlines : l < lineCount text := by omega
          simp only [Int.toNat_natCast] at h
          split at h
          next => exact nomatch h
          next hseek =>
              obtain rfl := Except.error.inj h
              exact .pastLineEnd hlines ((seek_eq_pastEnd_iff _ _).mp hseek)
          next hseek =>
              obtain rfl := Except.error.inj h
              exact .splitsPair hlines ((seek_eq_insidePair_iff _ _).mp hseek)

theorem toOffset_of_refusal {text : List CodePoint} {line character : Int} {cause : PositionError}
    (h : Refusal text line character cause) : toOffset text line character = .error cause := by
  cases h with
  | lineOutside hline => simp [toOffset, hline]
  | negativeCharacter hlow hhigh hcharacter =>
      simp [toOffset, Int.not_lt.mpr hlow, Int.not_le.mpr hhigh, hcharacter]
  | @pastLineEnd l c hline hcharacter =>
      have hseek := (seek_eq_pastEnd_iff c (dropLines l text)).mpr hcharacter
      rw [toOffset_eq_seek hline, hseek]
  | @splitsPair l c hline hsplits =>
      have hseek := (seek_eq_insidePair_iff c (dropLines l text)).mpr hsplits
      rw [toOffset_eq_seek hline, hseek]

/-- Between the two units of one character there is no offset. -/
example : toOffset (Text.glyphs ['a', Char.ofNat 0x1f600, '\n']) 0 2 =
    .error (.splitsPair 2 0) := rfl

end Position

end EditorBridge
