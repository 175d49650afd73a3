/-
What the reader of JSON takes.  A text that is read as a value is a text of the grammar, so the
two agree; and where a numeral is too long to be converted, the text up to that numeral could
have been the beginning of one.
-/
import EditorBridge.Proofs.JsonGrammar
import EditorBridge.Proofs.Outcomes
import EditorBridge.Proofs.Utf8

namespace EditorBridge.Json

theorem isSpacing_takeWhile (cs : List Char) : IsSpacing (cs.takeWhile isSpace) :=
  fun _ hc => isSpace_iff.mp (List.mem_takeWhile_imp hc)

/-- What is skipped is blank. -/
theorem exists_blank (cs : List Char) : ∃ front, cs = front ++ skipSpace cs ∧ IsSpacing front :=
  ⟨cs.takeWhile isSpace, List.takeWhile_append_dropWhile.symm, isSpacing_takeWhile cs⟩

/-! Strings. -/

theorem exists_unitText {cs : List Char} {unit : Nat} (h : unit? cs = some unit) :
    ∃ digits, cs = digits ++ cs.drop 4 ∧ UnitText digits unit := by
  unfold unit? at h
  split at h
  next a b c d rest =>
      simp only [Option.bind_eq_bind, Option.bind_eq_some_iff, Option.some.injEq] at h
      obtain ⟨i, ha, j, hb, k, hc, l, hd, rfl⟩ := h
      have hunit : i * 4096 + j * 256 + k * 16 + l = ((i * 16 + j) * 16 + k) * 16 + l := by omega
      refine ⟨[a, b, c, d], rfl, ?_⟩
      rw [hunit]
      exact .mk ha hb hc hd
  next => exact nomatch h

theorem toNat_pointOfUnit {unit : Nat} (hunit : unit < 0x10000) :
    (pointOfUnit unit).toNat = unit := by
  rw [pointOfUnit]
  split
  next hlone =>
      simp only [isHighUnit, isLowUnit, Bool.or_eq_true, Bool.and_eq_true,
        decide_eq_true_eq] at hlone
      have hoffset : (unit - 0xd800) % 0x800 = unit - 0xd800 := Nat.mod_eq_of_lt (by omega)
      show 0xd800 + (unit - 0xd800) % 0x800 = unit
      omega
  next hlone =>
      simp only [isHighUnit, isLowUnit, Bool.or_eq_true, Bool.and_eq_true,
        decide_eq_true_eq] at hlone
      have hvalid : unit.isValidChar := by
        rw [Nat.isValidChar]
        omega
      exact Text.Utf8.toNat_ofNat_of_valid hvalid

/-- Two units read as one character are a pair, and a unit read alone makes none with what
follows. -/
theorem joinUnits_eq_ok {high : Nat} {rest left : List Char} {point : CodePoint}
    (h : joinUnits high rest = .ok (point, left)) :
    (∃ digits low, rest = '\\' :: 'u' :: (digits ++ left) ∧ UnitText digits low ∧
      IsPair high low ∧ point = pointOfPair high low) ∨
    (left = rest ∧ point = pointOfUnit high ∧ ∀ digits more low,
      rest = '\\' :: 'u' :: (digits ++ more) → more ≠ [] → UnitText digits low →
        ¬IsPair high low) := by
  unfold joinUnits at h
  split at h
  next hjoin =>
      simp only [Bool.and_eq_true, List.isPrefixOf_iff_prefix] at hjoin
      obtain ⟨⟨hhigh, -⟩, more, rfl⟩ := hjoin
      split at h
      next => exact nomatch h
      next low hunit =>
          have hunit' : unit? more = some low := hunit
          obtain ⟨digits, hdigits, hlow⟩ := exists_unitText hunit'
          split at h
          next hlowUnit =>
              obtain ⟨rfl, rfl⟩ := Prod.mk.inj (Except.ok.inj h)
              rw [isHighUnit_iff] at hhigh
              rw [isLowUnit_iff] at hlowUnit
              refine Or.inl ⟨digits, low, ?_, hlow, ⟨hhigh.1, hhigh.2, hlowUnit⟩, rfl⟩
              exact congrArg (fun cs => '\\' :: 'u' :: cs) hdigits
          next hlowUnit =>
              obtain ⟨rfl, rfl⟩ := Prod.mk.inj (Except.ok.inj h)
              refine Or.inr ⟨rfl, rfl, fun other tail unit hrest _ hother hpair => hlowUnit ?_⟩
              have hmore : more = other ++ tail :=
                (List.cons.inj (List.cons.inj hrest).2).2
              rw [hmore, unit?_append hother] at hunit'
              rw [← Option.some.inj hunit', isLowUnit_iff]
              exact hpair.2.2
  next hjoin =>
      obtain ⟨rfl, rfl⟩ := Prod.mk.inj (Except.ok.inj h)
      refine Or.inr ⟨rfl, rfl, fun digits more low hrest hmore hlow hpair => hjoin ?_⟩
      have hleft : rest.drop 6 = more := by
        rw [hrest]
        show (digits ++ more).drop 4 = more
        exact List.drop_left' hlow.length
      have hmark : "\\u".toList.isPrefixOf rest = true := by
        rw [hrest]
        rfl
      rw [isHighUnit_iff.mpr ⟨hpair.1, hpair.2.1⟩, hleft, hmark,
        List.isEmpty_eq_false_iff.mpr hmore]
      rfl

theorem mem_of_unescape? {e c : Char} (h : unescape? e = some c) : (e, c) ∈ shortEscapes := by
  unfold unescape? at h
  split_ifs at h with h1 h2 h3 h4 h5 h6 h7 h8
  all_goals
    obtain rfl := Option.some.inj h
    subst e
    decide

theorem exists_of_map_eq_ok {α β : Type} {reading : Reading α} {change : α → β} {value : β}
    {rest : List Char}
    (h : (reading.map fun (given, left) => (change given, left)) = .ok (value, rest)) :
    ∃ given, reading = .ok (given, rest) ∧ change given = value := by
  obtain ⟨⟨given, left⟩, hreading, hvalue⟩ := map_eq_ok_iff.mp h
  obtain ⟨rfl, rfl⟩ := Prod.mk.inj hvalue
  exact ⟨given, hreading, rfl⟩

/-- An escape that gives a code point, and the text of a string behind it. -/
theorem stringText_of_unicode {digits left rest body : List Char} {point : CodePoint}
    {points : List CodePoint} (hread : readUnicodeEscape digits = .ok (point, left))
    (hleft : left = body ++ '\x22' :: rest) (hbody : StringText body points) :
    ∃ front, '\\' :: 'u' :: digits = front ++ '\x22' :: rest ∧
      StringText front (point :: points) := by
  unfold readUnicodeEscape at hread
  split at hread
  next high next more hunit hmore =>
      obtain ⟨first, hdigits, hfirst⟩ := exists_unitText hunit
      rw [hmore] at hdigits
      rcases joinUnits_eq_ok hread with ⟨back, low, hback, hlow, hpair, rfl⟩ |
        ⟨rfl, rfl, halone⟩
      · have hvalid : (0x10000 + (high - 0xd800) * 0x400 + (low - 0xdc00)).isValidChar := by
          obtain ⟨hhigh, hhigh', hlow, hlow'⟩ := hpair
          rw [Nat.isValidChar]
          omega
        refine ⟨'\\' :: 'u' :: (first ++ '\\' :: 'u' :: (back ++ body)), ?_,
          .pair hfirst hlow hpair (Text.Utf8.toNat_ofNat_of_valid hvalid) hbody⟩
        rw [hdigits, hback, hleft]
        simp only [List.cons_append, List.append_assoc]
      · refine ⟨'\\' :: 'u' :: (first ++ body), ?_,
          .alone hfirst (toNat_pointOfUnit hfirst.lt) ?_ hbody⟩
        · rw [hdigits, hleft]
          simp only [List.cons_append, List.append_assoc]
        · intro back tail low hcs hlow
          refine halone back (tail ++ '\x22' :: rest) low ?_ (by simp) hlow
          rw [hleft, hcs]
          simp only [List.cons_append, List.append_assoc]
  next => cases hread

/-- What is read up to a closing quote is the text of a string. -/
theorem exists_stringText {opened cs rest : List Char} {points : List CodePoint}
    (h : readPoints opened cs = .ok (points, rest)) :
    ∃ body, cs = body ++ '\x22' :: rest ∧ StringText body points := by
  fun_induction readPoints opened cs generalizing points with
  | case1 | case3 | case4 | case6 | case8 => exact nomatch h
  | case2 =>
      obtain ⟨rfl, rfl⟩ := Prod.mk.inj (Except.ok.inj h)
      exact ⟨[], rfl, .nil⟩
  | case5 more point left hread hquote ih =>
      obtain ⟨given, hgiven, rfl⟩ := exists_of_map_eq_ok h
      obtain ⟨body, hleft, hbody⟩ := ih hgiven
      exact stringText_of_unicode hread hleft hbody
  | case7 e more hunicode d hescape hquote ih =>
      obtain ⟨given, hgiven, rfl⟩ := exists_of_map_eq_ok h
      obtain ⟨body, rfl, hbody⟩ := ih hgiven
      exact ⟨'\\' :: e :: body, rfl, .short (mem_of_unescape? hescape) hbody⟩
  | case9 c more hquote hbackslash hcontrol ih =>
      obtain ⟨given, hgiven, rfl⟩ := exists_of_map_eq_ok h
      obtain ⟨body, rfl, hbody⟩ := ih hgiven
      exact ⟨c :: body, rfl, .plain hquote hbackslash (Nat.not_lt.mp hcontrol) hbody⟩

theorem exists_text_of_readString {cs rest : List Char} {s : Text}
    (h : readString cs = .ok (s, rest)) :
    ∃ body, cs = body ++ '\x22' :: rest ∧ StringText body s.points := by
  obtain ⟨points, hpoints, rfl⟩ := exists_of_map_eq_ok h
  exact exists_stringText hpoints

/-! Numerals. -/

theorem isRun_takeWhile {cs : List Char} (hne : cs.takeWhile Text.isAsciiDigit ≠ []) :
    IsRun (cs.takeWhile Text.isAsciiDigit) :=
  ⟨hne, fun _ hc => List.mem_takeWhile_imp hc⟩

theorem endsRun_dropWhile (cs : List Char) : EndsRun (cs.dropWhile Text.isAsciiDigit) := by
  intro c hc
  have hnot := List.head?_dropWhile_not Text.isAsciiDigit cs
  rw [Option.mem_def.mp hc] at hnot
  simpa using hnot

/-- The whole part takes all digits, unless it is the digit zero. -/
theorem spanWhole_eq {cs whole rest : List Char} (h : spanWhole cs = (whole, rest))
    (hne : whole ≠ []) :
    cs = whole ++ rest ∧ IsWholePart whole ∧ (1 < whole.length → EndsRun rest) := by
  unfold spanWhole at h
  split at h
  next more =>
      obtain ⟨rfl, rfl⟩ := Prod.mk.inj h
      refine ⟨rfl, ⟨⟨hne, List.forall_mem_singleton.mpr rfl⟩, ?_⟩,
        fun hlength => absurd hlength (by decide)⟩
      exact fun tail heq => (List.cons.inj heq).2.symm
  next hzero =>
      obtain ⟨rfl, rfl⟩ := Prod.mk.inj h
      refine ⟨List.takeWhile_append_dropWhile.symm, ⟨isRun_takeWhile hne, ?_⟩,
        fun _ => endsRun_dropWhile cs⟩
      intro more heq
      have hsplit := List.takeWhile_append_dropWhile (p := Text.isAsciiDigit) (l := cs)
      rw [heq, List.cons_append] at hsplit
      exact absurd hsplit.symm (hzero _)

theorem spanFraction_eq {cs fraction rest : List Char}
    (h : spanFraction cs = (fraction, rest)) :
    ∃ front, cs = front ++ rest ∧ FractionText front fraction := by
  unfold spanFraction at h
  split at h
  next more =>
      split at h
      next =>
          obtain ⟨rfl, rfl⟩ := Prod.mk.inj h
          exact ⟨[], rfl, .none⟩
      next digits hne =>
          obtain ⟨rfl, rfl⟩ := Prod.mk.inj h
          refine ⟨'.' :: more.takeWhile Text.isAsciiDigit, ?_, .some (isRun_takeWhile hne)⟩
          rw [List.cons_append, List.takeWhile_append_dropWhile]
  next =>
      obtain ⟨rfl, rfl⟩ := Prod.mk.inj h
      exact ⟨[], rfl, .none⟩

theorem spanExponent_eq {cs rest : List Char} {exponent : Option Int}
    (h : spanExponent cs = (exponent, rest)) :
    ∃ back, cs = back ++ rest ∧ ExponentText back (exponent.getD 0) ∧
      (exponent = none ↔ back = []) := by
  have hmissing : ∀ {given : List Char}, (none, given) = (exponent, rest) →
      ∃ back, given = back ++ rest ∧ ExponentText back (exponent.getD 0) ∧
        (exponent = none ↔ back = []) := by
    intro given heq
    obtain ⟨rfl, rfl⟩ := Prod.mk.inj heq
    exact ⟨[], rfl, .none, iff_of_true rfl rfl⟩
  revert h
  fun_cases spanExponent cs with
  | case1 | case3 | case4 => exact hmissing
  | case2 mark behind hmark negative digits hsplit hne size =>
      intro h
      obtain ⟨rfl, rfl⟩ := Prod.mk.inj h
      have hmark' : mark ∈ ['e', 'E'] := by simpa using hmark
      have hrun := isRun_takeWhile hne
      obtain ⟨sign, rfl, hsign⟩ : ∃ sign, behind = sign ++ digits ∧
          (sign, negative) ∈ [([], false), (['+'], false), (['-'], true)] := by
        split at hsplit
        all_goals obtain ⟨rfl, rfl⟩ := Prod.mk.inj hsplit
        · exact ⟨['-'], rfl, by decide⟩
        · exact ⟨['+'], rfl, by decide⟩
        · exact ⟨[], rfl, by decide⟩
      refine ⟨mark :: (sign ++ digits.takeWhile Text.isAsciiDigit), ?_,
        .some hmark' hsign hrun, iff_of_false (fun heq => nomatch heq) (List.cons_ne_nil _ _)⟩
      rw [List.cons_append, List.append_assoc, List.takeWhile_append_dropWhile]

theorem endsInteger_of_span {rest left more : List Char} (hrun : EndsRun rest)
    (hfraction : spanFraction rest = ([], left)) (hexponent : spanExponent left = (none, more)) :
    EndsInteger rest where
  run := hrun
  fraction front digits behind hrest hfront := by
    cases hfront with
    | none => rfl
    | some hdigits =>
        obtain ⟨c, tail, rfl⟩ := List.exists_cons_of_ne_nil hdigits.1
        have hc : Text.isAsciiDigit c = true := hdigits.2 c List.mem_cons_self
        rw [hrest] at hfraction
        simp [spanFraction, hc] at hfraction
  exponent back power behind hrest hback := by
    cases hback with
    | none => rfl
    | @some mark sign digits negative hmark hsign hdigits =>
        obtain ⟨c, tail, rfl⟩ := List.exists_cons_of_ne_nil hdigits.1
        have hc : Text.isAsciiDigit c = true := hdigits.2 c List.mem_cons_self
        have hpoint : mark ≠ '.' := by
          rintro rfl
          exact absurd hmark (by decide)
        have hmark' : (mark = 'e' || mark = 'E') = true := by simpa using hmark
        have hsame : left = rest := by
          rw [hrest, List.cons_append, spanFraction] at hfraction
          · rw [hrest]
            exact (Prod.mk.inj hfraction).2.symm
          · exact fun _ heq => hpoint (List.cons.inj heq).1
        rw [hsame, hrest] at hexponent
        simp only [List.mem_cons, Prod.mk.injEq, List.not_mem_nil, or_false] at hsign
        rcases hsign with ⟨rfl, rfl⟩ | ⟨rfl, rfl⟩ | ⟨rfl, rfl⟩
        all_goals
          simp [spanExponent, hmark', hc, (digit_ne_sign hc).1, (digit_ne_sign hc).2] at hexponent

/-- What is read of a numeral: a text of the grammar, unless it is an integer too long. -/
theorem readNumeral_cases {negative : Bool} {left : Nat} {cs : List Char} :
    (∃ what place, readNumeral negative left cs = .error (.complaint what place)) ∨
    (∃ body rest value, readNumeral negative left cs = .ok (value, rest) ∧
      cs = body ++ rest ∧ NumeralText (signText negative ++ body) value) ∨
    (∃ whole rest tooLong, readNumeral negative left cs = .error (.numeral tooLong) ∧
      cs = whole ++ rest ∧ IsWholePart whole ∧ Text.maxNumeralDigits < whole.length ∧
      EndsInteger rest) := by
  rcases hwholeSpan : spanWhole cs with ⟨whole, behind⟩
  rcases hfractionSpan : spanFraction behind with ⟨fraction, further⟩
  rcases hexponentSpan : spanExponent further with ⟨exponent, rest⟩
  simp only [readNumeral, hwholeSpan, hfractionSpan, hexponentSpan]
  split
  next => exact Or.inl ⟨_, _, rfl⟩
  next hsome =>
      have hne : whole ≠ [] := by simpa using hsome
      obtain ⟨rfl, hwhole, hends⟩ := spanWhole_eq hwholeSpan hne
      obtain ⟨front, rfl, hfraction⟩ := spanFraction_eq hfractionSpan
      obtain ⟨back, rfl, hexponent, hnone⟩ := spanExponent_eq hexponentSpan
      split
      next hint =>
          rw [Bool.and_eq_true, List.isEmpty_iff, Option.isNone_iff_eq_none] at hint
          obtain ⟨rfl, rfl⟩ := hint
          obtain rfl : back = [] := hnone.mp rfl
          obtain rfl : front = [] := by
            cases hfraction with
            | none => rfl
            | some hdigits => exact absurd rfl hdigits.1
          simp only [List.nil_append] at hfractionSpan hexponentSpan ⊢
          rw [Text.readDigits]
          by_cases hlong : Text.maxNumeralDigits < whole.length
          · have hlength : 1 < whole.length := Nat.lt_trans (by decide) hlong
            rw [if_pos hlong]
            exact Or.inr (Or.inr ⟨whole, rest, _, rfl, rfl, hwhole, hlong,
              endsInteger_of_span (hends hlength) hfractionSpan hexponentSpan⟩)
          · rw [if_neg hlong]
            exact Or.inr (Or.inl ⟨whole, rest, _, rfl, rfl,
              .int hwhole (Nat.not_lt.mp hlong)⟩)
      next hfloat =>
          have hsomething : front ++ back ≠ [] := by
            intro hempty
            obtain ⟨rfl, rfl⟩ := List.append_eq_nil_iff.mp hempty
            obtain rfl : exponent = none := hnone.mpr rfl
            cases hfraction
            exact hfloat rfl
          refine Or.inr (Or.inl ⟨whole ++ (front ++ back), rest, _, rfl, ?_,
            .float hwhole hfraction hexponent hsomething⟩)
          simp only [List.append_assoc]

theorem readScalar_of_numeral {negative : Bool} {left : Nat} {cs : List Char} :
    (∃ what place, readNumeral negative left cs = .error (.complaint what place)) ∨
    (∃ front rest value, readNumeral negative left cs = .ok (value, rest) ∧
      signText negative ++ cs = front ++ rest ∧ ValueText front value) ∨
    (∃ tooLong, readNumeral negative left cs = .error (.numeral tooLong) ∧
      Overlong (signText negative ++ cs)) := by
  rcases @readNumeral_cases negative left cs with ⟨what, place, hread⟩ |
    ⟨body, rest, value, hread, rfl, hnumeral⟩ |
    ⟨whole, rest, tooLong, hread, rfl, hwhole, hlong, hends⟩
  · exact Or.inl ⟨what, place, hread⟩
  · refine Or.inr (Or.inl ⟨signText negative ++ body, rest, value, hread, ?_, .numeral hnumeral⟩)
    rw [List.append_assoc]
  · exact Or.inr (Or.inr ⟨tooLong, hread, .int hwhole hlong hends⟩)

theorem valueText_of_mem_names {name : List Char} {value : Json} (h : (name, value) ∈ names) :
    ValueText name value := by
  simp only [names, List.mem_cons, Prod.mk.injEq, List.not_mem_nil, or_false] at h
  rcases h with ⟨rfl, rfl⟩ | ⟨rfl, rfl⟩ | ⟨rfl, rfl⟩ | ⟨rfl, rfl⟩ | ⟨rfl, rfl⟩ | ⟨rfl, rfl⟩
  · exact .null
  · exact .bool true
  · exact .bool false
  · exact .notANumber
  · exact .infinity false
  · exact .infinity true

/-- What is read of a scalar: a text of the grammar, unless it is an integer too long. -/
theorem readScalar_cases (cs : List Char) :
    (∃ what place, readScalar cs = .error (.complaint what place)) ∨
    (∃ front rest value, readScalar cs = .ok (value, rest) ∧ cs = front ++ rest ∧
      ValueText front value) ∨
    (∃ tooLong, readScalar cs = .error (.numeral tooLong) ∧ Overlong cs) := by
  unfold readScalar
  split
  next name value hname =>
      have hfound : name.isPrefixOf cs = true :=
        List.find?_some (p := fun entry : List Char × Json => entry.1.isPrefixOf cs) hname
      obtain ⟨rest, rfl⟩ := List.isPrefixOf_iff_prefix.mp hfound
      refine Or.inr (Or.inl ⟨name, rest, value, ?_, rfl,
        valueText_of_mem_names (List.mem_of_find?_eq_some hname)⟩)
      rw [List.drop_left]
  next =>
      split
      · exact @readScalar_of_numeral true _ _
      · exact @readScalar_of_numeral false _ _

/-! Values. -/

/-- A key is read with its colon and the blanks behind that. -/
theorem exists_keyText {cs rest more : List Char} {key : Text}
    (hread : readString cs = .ok (key, rest)) (hcolon : skipSpace rest = ':' :: more) :
    ∃ name, '\x22' :: cs = name ++ skipSpace more ∧ KeyText name key := by
  obtain ⟨body, rfl, hbody⟩ := exists_text_of_readString hread
  obtain ⟨front, hfront, hfrontBlank⟩ := exists_blank rest
  obtain ⟨back, hback, hbackBlank⟩ := exists_blank more
  refine ⟨'\x22' :: (body ++ '\x22' :: (front ++ ':' :: back)), ?_,
    .mk hbody hfrontBlank hbackBlank⟩
  rw [hfront, hcolon]
  simp only [List.cons_append, List.append_assoc, ← hback]

mutual

/-- What is read as a value is its text. -/
theorem exists_valueText {fuel : Nat} {cs rest : List Char} {value : Json}
    (h : readValue fuel cs = .ok (value, rest)) :
    ∃ front, cs = front ++ rest ∧ ValueText front value := by
  match fuel with
  | 0 => exact nomatch h
  | fuel + 1 =>
      unfold readValue at h
      split at h
      next behind =>
          obtain ⟨s, hread, rfl⟩ := exists_of_map_eq_ok h
          obtain ⟨body, rfl, hbody⟩ := exists_text_of_readString hread
          refine ⟨'\x22' :: (body ++ ['\x22']), ?_, .str hbody⟩
          simp only [List.cons_append, List.append_assoc, List.nil_append]
      next behind =>
          obtain ⟨space, hspace, hblank⟩ := exists_blank behind
          split at h
          next left hleft =>
              obtain ⟨rfl, rfl⟩ := Prod.mk.inj (Except.ok.inj h)
              refine ⟨'[' :: (space ++ [']']), ?_, .noItems hblank⟩
              rw [hspace, hleft]
              simp only [List.cons_append, List.append_assoc, List.nil_append]
          next =>
              obtain ⟨items, hread, rfl⟩ := exists_of_map_eq_ok h
              obtain ⟨front, hfront, hitems⟩ := exists_itemsText hread
              refine ⟨'[' :: (space ++ front), ?_, .arr hblank hitems⟩
              rw [hspace, hfront]
              simp only [List.cons_append, List.append_assoc]
      next behind =>
          obtain ⟨space, hspace, hblank⟩ := exists_blank behind
          split at h
          next left hleft =>
              obtain ⟨rfl, rfl⟩ := Prod.mk.inj (Except.ok.inj h)
              refine ⟨'\x7b' :: (space ++ ['\x7d']), ?_, .noFields hblank⟩
              rw [hspace, hleft]
              simp only [List.cons_append, List.append_assoc, List.nil_append]
          next =>
              obtain ⟨fields, hread, rfl⟩ := exists_of_map_eq_ok h
              obtain ⟨front, pairs, hfront, hpairs, rfl⟩ := exists_fieldsText hread
              refine ⟨'\x7b' :: (space ++ front), ?_, .obj hblank hpairs⟩
              rw [hspace, hfront]
              simp only [List.cons_append, List.append_assoc]
      next =>
          rcases readScalar_cases cs with ⟨what, place, hread⟩ |
            ⟨front, left, given, hread, hfront, hvalue⟩ | ⟨tooLong, hread, -⟩
          · rw [hread] at h
            exact nomatch h
          · rw [hread] at h
            obtain ⟨rfl, rfl⟩ := Prod.mk.inj (Except.ok.inj h)
            exact ⟨front, hfront, hvalue⟩
          · rw [hread] at h
            exact nomatch h

theorem exists_itemsText {fuel : Nat} {cs rest : List Char} {items : List Json}
    (h : readItems fuel cs = .ok (items, rest)) :
    ∃ front, cs = front ++ rest ∧ ItemsText front items := by
  match fuel with
  | 0 => exact nomatch h
  | fuel + 1 =>
      unfold readItems at h
      split at h
      next => exact nomatch h
      next item behind hread =>
          obtain ⟨front, rfl, hitem⟩ := exists_valueText hread
          obtain ⟨back, hback, hblank⟩ := exists_blank behind
          split at h
          next left hleft =>
              obtain ⟨rfl, rfl⟩ := Prod.mk.inj (Except.ok.inj h)
              refine ⟨front ++ (back ++ [']']), ?_, .last hitem hblank⟩
              rw [hback, hleft]
              simp only [List.append_assoc, List.singleton_append]
          next further hleft =>
              obtain ⟨more, hmore, rfl⟩ := exists_of_map_eq_ok h
              obtain ⟨space, hspace, hspaceBlank⟩ := exists_blank further
              obtain ⟨text, htext, hitems⟩ := exists_itemsText hmore
              refine ⟨front ++ (back ++ ',' :: (space ++ text)), ?_,
                .more hitem hblank hspaceBlank hitems⟩
              rw [hback, hleft, hspace, htext]
              simp only [List.append_assoc, List.cons_append]
          next => exact nomatch h

theorem exists_fieldsText {fuel : Nat} {seen fields : Fields} {cs rest : List Char}
    (h : readFields fuel seen cs = .ok (fields, rest)) :
    ∃ front pairs, cs = front ++ rest ∧ FieldsText front pairs ∧
      fields = pairs.foldl (fun fields pair => fields.set pair.1 pair.2) seen := by
  match fuel with
  | 0 => exact nomatch h
  | fuel + 1 =>
      by_cases hquote : ∃ opened, cs = '\x22' :: opened
      · obtain ⟨opened, rfl⟩ := hquote
        rw [readFields] at h
        split at h
        next => exact nomatch h
        next key behind hkey =>
            split at h
            next more hcolon =>
                obtain ⟨name, hname, hkeyText⟩ := exists_keyText hkey hcolon
                split at h
                next => exact nomatch h
                next value after hvalue =>
                    obtain ⟨text, htext, hvalueText⟩ := exists_valueText hvalue
                    obtain ⟨back, hback, hblank⟩ := exists_blank after
                    simp only at h
                    split at h
                    next left hleft =>
                        obtain ⟨rfl, rfl⟩ := Prod.mk.inj (Except.ok.inj h)
                        refine ⟨name ++ (text ++ (back ++ ['\x7d'])), [(key, value)], ?_,
                          .last hkeyText hvalueText hblank, rfl⟩
                        rw [hname, htext, hback, hleft]
                        simp only [List.append_assoc, List.singleton_append]
                    next further hleft =>
                        obtain ⟨space, hspace, hspaceBlank⟩ := exists_blank further
                        obtain ⟨front, pairs, hfront, hpairs, rfl⟩ := exists_fieldsText h
                        refine ⟨name ++ (text ++ (back ++ ',' :: (space ++ front))),
                          (key, value) :: pairs, ?_,
                          .more hkeyText hvalueText hblank hspaceBlank hpairs, rfl⟩
                        rw [hname, htext, hback, hleft, hspace, hfront]
                        simp only [List.append_assoc, List.cons_append]
                    next => exact nomatch h
            next => exact nomatch h
      · rw [readFields] at h
        · exact nomatch h
        · exact fun opened heq => hquote ⟨opened, heq⟩

end

/-- A text is read as a value exactly when the grammar has it as the text of the value. -/
theorem parse_eq_ok_iff {cs : List Char} {value : Json} :
    parse cs = .ok value ↔ IsText cs value := by
  constructor
  · intro h
    unfold parse at h
    split at h
    next => exact nomatch h
    next =>
        split at h
        next => exact nomatch h
        next => exact nomatch h
        next given rest hread =>
            obtain ⟨front, hfront, hblank⟩ := exists_blank cs
            obtain ⟨text, htext, hvalue⟩ := exists_valueText hread
            split at h
            next hrest =>
                obtain rfl := Except.ok.inj h
                have hback : IsSpacing rest := by
                  obtain ⟨back, hback, hbackBlank⟩ := exists_blank rest
                  rw [hrest, List.append_nil] at hback
                  exact hback ▸ hbackBlank
                rw [hfront, htext]
                exact .mk hblank hvalue hback
            next => exact nomatch h
  · exact parse_text

/-- No text is the text of two values. -/
theorem IsText.unique {cs : List Char} {value other : Json} (h : IsText cs value)
    (hother : IsText cs other) : value = other := by
  rw [← parse_eq_ok_iff] at h hother
  exact Except.ok.inj (h.symm.trans hother)

/-! Integers too long. -/

/-- A string is read without converting numerals. -/
theorem readPoints_ne_numeral {opened cs : List Char} {tooLong : Text.NumeralTooLong} :
    readPoints opened cs ≠ .error (.numeral tooLong) := by
  have hescape : ∀ {digits : List Char}, readUnicodeEscape digits ≠ .error (.numeral tooLong) := by
    intro digits h
    unfold readUnicodeEscape joinUnits at h
    split at h
    · split at h
      · split at h
        · exact nomatch h
        · split at h <;> exact nomatch h
      · exact nomatch h
    · exact nomatch h
  intro h
  fun_induction readPoints opened cs with
  | case1 | case2 | case3 | case6 | case8 => exact nomatch h
  | case4 more stop hread =>
      rw [Except.error.inj h] at hread
      exact hescape hread
  | case5 more point left hread hquote ih => exact ih (map_eq_error_iff.mp h)
  | case7 e more hunicode d hshort hquote ih => exact ih (map_eq_error_iff.mp h)
  | case9 c more hquote hbackslash hcontrol ih => exact ih (map_eq_error_iff.mp h)

theorem readString_ne_numeral {cs : List Char} {tooLong : Text.NumeralTooLong} :
    readString cs ≠ .error (.numeral tooLong) :=
  fun h => readPoints_ne_numeral (map_eq_error_iff.mp h)

theorem IsSpacing.append {front back : List Char} (hfront : IsSpacing front)
    (hback : IsSpacing back) :
    IsSpacing (front ++ back) :=
  fun c hc => (List.mem_append.mp hc).elim (hfront c) (hback c)

theorem FieldsFront.append {space front : List Char} (h : FieldsFront front)
    (hspace : IsSpacing space) : FieldsFront (space ++ front) := by
  cases h with
  | first hfirst hkey =>
      rw [← List.append_assoc]
      exact .first (hspace.append hfirst) hkey
  | more hmore hkey hvalue hback hrest =>
      rw [← List.append_assoc]
      exact .more (hspace.append hmore) hkey hvalue hback hrest

theorem ItemsFront.append {space front : List Char} (h : ItemsFront front)
    (hspace : IsSpacing space) : ItemsFront (space ++ front) := by
  cases h with
  | first hfirst => exact .first (hspace.append hfirst)
  | more hmore hitem hback hrest =>
      rw [← List.append_assoc]
      exact .more (hspace.append hmore) hitem hback hrest

mutual

/-- Where a numeral is too long, the text up to it could begin a value. -/
theorem overlong_of_readValue {fuel : Nat} {cs : List Char} {tooLong : Text.NumeralTooLong}
    (h : readValue fuel cs = .error (.numeral tooLong)) : Overlong cs := by
  match fuel with
  | 0 => exact nomatch h
  | fuel + 1 =>
      unfold readValue at h
      split at h
      next => exact absurd (map_eq_error_iff.mp h) readString_ne_numeral
      next behind =>
          obtain ⟨space, hspace, hblank⟩ := exists_blank behind
          split at h
          next => exact nomatch h
          next =>
              obtain ⟨front, rest, hsplit, hfront, hrest⟩ :=
                overlong_of_readItems (map_eq_error_iff.mp h)
              rw [hspace, hsplit, ← List.append_assoc]
              exact .item (hfront.append hblank) hrest
      next behind =>
          obtain ⟨space, hspace, hblank⟩ := exists_blank behind
          split at h
          next => exact nomatch h
          next =>
              obtain ⟨front, rest, hsplit, hfront, hrest⟩ :=
                overlong_of_readFields (map_eq_error_iff.mp h)
              rw [hspace, hsplit, ← List.append_assoc]
              exact .field (hfront.append hblank) hrest
      next =>
          rcases readScalar_cases cs with ⟨what, place, hread⟩ | ⟨front, left, value, hread, -⟩ |
            ⟨other, -, hoverlong⟩
          · rw [hread] at h
            exact nomatch h
          · rw [hread] at h
            exact nomatch h
          · exact hoverlong

theorem overlong_of_readItems {fuel : Nat} {cs : List Char} {tooLong : Text.NumeralTooLong}
    (h : readItems fuel cs = .error (.numeral tooLong)) :
    ∃ front rest, cs = front ++ rest ∧ ItemsFront front ∧ Overlong rest := by
  have hnone : IsSpacing [] := fun _ hc => absurd hc List.not_mem_nil
  match fuel with
  | 0 => exact nomatch h
  | fuel + 1 =>
      unfold readItems at h
      split at h
      next stop hread =>
          rw [Except.error.inj h] at hread
          exact ⟨[], cs, rfl, .first hnone, overlong_of_readValue hread⟩
      next item behind hread =>
          obtain ⟨text, rfl, hitem⟩ := exists_valueText hread
          obtain ⟨back, hback, hblank⟩ := exists_blank behind
          split at h
          next => exact nomatch h
          next further hleft =>
              obtain ⟨space, hspace, hspaceBlank⟩ := exists_blank further
              obtain ⟨front, rest, hsplit, hfront, hrest⟩ :=
                overlong_of_readItems (map_eq_error_iff.mp h)
              refine ⟨text ++ (back ++ ',' :: (space ++ front)), rest, ?_,
                .more hnone hitem hblank (hfront.append hspaceBlank), hrest⟩
              rw [hback, hleft, hspace, hsplit]
              simp only [List.append_assoc, List.cons_append]
          next => exact nomatch h

theorem overlong_of_readFields {fuel : Nat} {seen : Fields} {cs : List Char}
    {tooLong : Text.NumeralTooLong} (h : readFields fuel seen cs = .error (.numeral tooLong)) :
    ∃ front rest, cs = front ++ rest ∧ FieldsFront front ∧ Overlong rest := by
  have hnone : IsSpacing [] := fun _ hc => absurd hc List.not_mem_nil
  match fuel with
  | 0 => exact nomatch h
  | fuel + 1 =>
      by_cases hquote : ∃ opened, cs = '\x22' :: opened
      · obtain ⟨opened, rfl⟩ := hquote
        rw [readFields] at h
        split at h
        next stop hread =>
            rw [Except.error.inj h] at hread
            exact absurd hread readString_ne_numeral
        next key behind hkey =>
            split at h
            next more hcolon =>
                obtain ⟨name, hname, hkeyText⟩ := exists_keyText hkey hcolon
                split at h
                next stop hread =>
                    rw [Except.error.inj h] at hread
                    exact ⟨name, _, hname, .first hnone hkeyText, overlong_of_readValue hread⟩
                next value after hvalue =>
                    obtain ⟨text, htext, hvalueText⟩ := exists_valueText hvalue
                    obtain ⟨back, hback, hblank⟩ := exists_blank after
                    simp only at h
                    split at h
                    next => exact nomatch h
                    next further hleft =>
                        obtain ⟨space, hspace, hspaceBlank⟩ := exists_blank further
                        obtain ⟨front, rest, hsplit, hfront, hrest⟩ := overlong_of_readFields h
                        refine ⟨name ++ (text ++ (back ++ ',' :: (space ++ front))), rest, ?_,
                          .more hnone hkeyText hvalueText hblank (hfront.append hspaceBlank),
                          hrest⟩
                        rw [hname, htext, hback, hleft, hspace, hsplit]
                        simp only [List.append_assoc, List.cons_append]
                    next => exact nomatch h
            next => exact nomatch h
      · rw [readFields] at h
        · exact nomatch h
        · exact fun opened heq => hquote ⟨opened, heq⟩

end

theorem readNumeral_overlong {negative : Bool} {whole rest : List Char}
    (hwhole : IsWholePart whole) (hlong : Text.maxNumeralDigits < whole.length)
    (hends : EndsInteger rest) (left : Nat) :
    readNumeral negative left (whole ++ rest) = .error (.numeral ⟨whole.length⟩) := by
  have hnone : whole.isEmpty = false := List.isEmpty_eq_false_iff.mpr hwhole.1.1
  have hfraction : spanFraction rest = ([], rest) := by
    rcases hspan : spanFraction rest with ⟨digits, more⟩
    obtain ⟨front, hrest, hfront⟩ := spanFraction_eq hspan
    obtain rfl := hends.fraction front digits more hrest hfront
    cases hfront
    rw [hrest, List.nil_append]
  have hexponent : spanExponent rest = (none, rest) := by
    rcases hspan : spanExponent rest with ⟨exponent, more⟩
    obtain ⟨back, hrest, hback, hmissing⟩ := spanExponent_eq hspan
    obtain rfl := hends.exponent back _ more hrest hback
    rw [hmissing.mpr rfl, hrest, List.nil_append]
  simp only [readNumeral, spanWhole_append hwhole hends.run, hnone, hfraction, hexponent,
    Text.readDigits, hlong, Bool.false_eq_true, if_false, List.isEmpty_nil, Option.isNone_none,
    Bool.and_self, if_true]

theorem Overlong.exists_cons {cs : List Char} (h : Overlong cs) :
    ∃ c more, cs = c :: more ∧ isSpace c = false ∧ c ≠ ']' ∧ c ≠ '\ufeff' := by
  cases h with
  | int hwhole =>
      obtain ⟨c, more, hcons, hc⟩ := hwhole.exists_cons _ _
      exact ⟨c, more, hcons, (ne_of_begins_numeral hc).2⟩
  | item => exact ⟨_, _, rfl, by decide⟩
  | field => exact ⟨_, _, rfl, by decide⟩

/-- Reading a text ends at an integer too long, with fuel for twice its length. -/
def EndsTooLong (cs : List Char) (tooLong : Text.NumeralTooLong) : Prop :=
  ∀ fuel, 2 * cs.length ≤ fuel → readValue fuel cs = .error (.numeral tooLong)

/-- An item that ends the reading ends that of its array. -/
theorem readItems_front {front rest : List Char} (hfront : ItemsFront front) {c : Char}
    {tail : List Char} (hcons : rest = c :: tail) (hspace : isSpace c = false)
    (hbracket : c ≠ ']') {tooLong : Text.NumeralTooLong} (hread : EndsTooLong rest tooLong)
    (fuel : Nat) (hfuel : 2 * (front ++ rest).length < fuel) :
    readItems fuel (skipSpace (front ++ rest)) = .error (.numeral tooLong) ∧
      ∀ left, skipSpace (front ++ rest) ≠ ']' :: left := by
  induction hfront generalizing fuel with
  | @first space hblank =>
      rw [List.length_append] at hfuel
      obtain ⟨k, rfl⟩ : ∃ k, fuel = k + 1 := ⟨fuel - 1, by omega⟩
      have hstop := hread k (by omega)
      have hskip : skipSpace (space ++ rest) = rest := by
        rw [hcons]
        exact skipSpace_append hblank hspace tail
      rw [hskip]
      refine ⟨by rw [readItems, hstop], fun left heq => ?_⟩
      rw [hcons] at heq
      exact hbracket (List.cons.inj heq).1
  | @more space cs back behind item hblank hitem hback _ ih =>
      obtain ⟨d, text, hfirst, hd, hdBracket, -⟩ := hitem.exists_cons
      simp only [List.length_append, List.length_cons] at hfuel ih
      obtain ⟨k, rfl⟩ : ∃ k, fuel = k + 1 := ⟨fuel - 1, by omega⟩
      have hvalue := readValue_text hitem k (endsNumeral_append hback
        (endsNumeral_cons (c := ',') (by decide) (behind ++ rest))) (by omega)
      have hskip : skipSpace (space ++ (cs ++ (back ++ ',' :: (behind ++ rest)))) =
          cs ++ (back ++ ',' :: (behind ++ rest)) := by
        rw [hfirst, List.cons_append]
        exact skipSpace_append hblank hd _
      simp only [List.append_assoc, List.cons_append]
      rw [hskip]
      constructor
      · rw [readItems, hvalue]
        simp only [skipSpace_append hback (c := ',') (by decide)]
        rw [(ih k (by omega)).1]
        rfl
      · intro left heq
        rw [hfirst] at heq
        exact hdBracket (List.cons.inj heq).1

/-- A field that ends the reading ends that of its object. -/
theorem readFields_front {front rest : List Char} (hfront : FieldsFront front) {c : Char}
    {tail : List Char} (hcons : rest = c :: tail) (hspace : isSpace c = false)
    {tooLong : Text.NumeralTooLong} (hread : EndsTooLong rest tooLong) (fuel : Nat)
    (hfuel : 2 * (front ++ rest).length < fuel) (seen : Fields) :
    ∃ opened, skipSpace (front ++ rest) = '\x22' :: opened ∧
      readFields fuel seen ('\x22' :: opened) = .error (.numeral tooLong) := by
  induction hfront generalizing fuel seen with
  | @first space name key hblank hkey =>
      obtain ⟨opened, hname⟩ := hkey.exists_cons
      rw [List.length_append] at hfuel
      obtain ⟨k, rfl⟩ : ∃ k, fuel = k + 1 := ⟨fuel - 1, by omega⟩
      have hstop := hread k (by omega)
      refine ⟨opened ++ rest, ?_, ?_⟩
      · rw [hname, List.append_assoc, List.cons_append]
        exact skipSpace_append hblank (by decide) _
      · rw [hcons] at hstop ⊢
        rw [← List.cons_append, ← hname]
        exact readFields_of_error hkey hspace hstop seen
  | @more space name cs back behind key value hblank hkey hvalue hback _ ih =>
      obtain ⟨opened, hname⟩ := hkey.exists_cons
      obtain ⟨d, text, hfirst, hd, -⟩ := hvalue.exists_cons
      simp only [List.length_append, List.length_cons] at hfuel ih
      obtain ⟨k, rfl⟩ : ∃ k, fuel = k + 1 := ⟨fuel - 1, by omega⟩
      have hgiven := readValue_text hvalue k (endsNumeral_append hback
        (endsNumeral_cons (c := ',') (by decide) (behind ++ rest))) (by omega)
      obtain ⟨next, hnext, hfields⟩ := ih k (by omega) (seen.set key value)
      refine ⟨opened ++ (cs ++ (back ++ ',' :: (behind ++ rest))), ?_, ?_⟩
      · simp only [List.append_assoc, List.cons_append, hname]
        exact skipSpace_append hblank (by decide) _
      · rw [← List.cons_append, ← hname]
        rw [hfirst, List.cons_append] at hgiven ⊢
        rw [readFields_field hkey hd hgiven, readMoreFields]
        simp only [skipSpace_append hback (c := ',') (by decide), hnext, hfields]

theorem readValue_overlong {cs : List Char} (h : Overlong cs) :
    ∃ tooLong, EndsTooLong cs tooLong := by
  induction h with
  | @int negative whole rest hwhole hlong hends =>
      refine ⟨⟨whole.length⟩, fun fuel hfuel => ?_⟩
      obtain ⟨c, more, hcons, hc⟩ := hwhole.exists_cons negative rest
      obtain ⟨d, digits, hdigits⟩ := List.exists_cons_of_ne_nil hwhole.1.1
      obtain ⟨left, hscalar⟩ := readScalar_of_digit negative
        (hwhole.1.2 d (hdigits ▸ List.mem_cons_self)) (digits ++ rest)
      rw [← List.cons_append, ← hdigits, hcons] at hscalar
      rw [hcons, List.length_cons] at hfuel
      obtain ⟨k, rfl⟩ : ∃ k, fuel = k + 1 := ⟨fuel - 1, by omega⟩
      rw [hcons, readValue_scalar (ne_of_begins_numeral hc).1, hscalar]
      exact readNumeral_overlong hwhole hlong hends left
  | @item front rest hfront hrest ih =>
      obtain ⟨tooLong, hread⟩ := ih
      obtain ⟨c, tail, hcons, hspace, hbracket, -⟩ := hrest.exists_cons
      refine ⟨tooLong, fun fuel hfuel => ?_⟩
      rw [List.length_cons] at hfuel
      obtain ⟨k, rfl⟩ : ∃ k, fuel = k + 1 := ⟨fuel - 1, by omega⟩
      obtain ⟨hitems, hopen⟩ := readItems_front hfront hcons hspace hbracket hread k (by omega)
      rw [readValue]
      split
      next left hleft => exact absurd hleft (hopen left)
      next => rw [hitems]; rfl
  | @field front rest hfront hrest ih =>
      obtain ⟨tooLong, hread⟩ := ih
      obtain ⟨c, tail, hcons, hspace, -⟩ := hrest.exists_cons
      refine ⟨tooLong, fun fuel hfuel => ?_⟩
      rw [List.length_cons] at hfuel
      obtain ⟨k, rfl⟩ : ∃ k, fuel = k + 1 := ⟨fuel - 1, by omega⟩
      obtain ⟨opened, hopened, hfields⟩ :=
        readFields_front hfront hcons hspace hread k (by omega) []
      rw [readValue, hopened]
      split
      next left hleft => exact absurd (List.cons.inj hleft).1 (by decide)
      next => rw [hfields]; rfl

/-- A text is refused for a numeral too long exactly when it could go on as one of the grammar
but for that numeral. -/
theorem exists_parse_eq_numeral_iff {cs : List Char} :
    (∃ tooLong, parse cs = .error (.numeral tooLong)) ↔ IsOverlong cs := by
  constructor
  · rintro ⟨tooLong, h⟩
    unfold parse at h
    split at h
    next => exact nomatch h
    next =>
        split at h
        next => exact nomatch h
        next given hread =>
            obtain ⟨front, hfront, hblank⟩ := exists_blank cs
            rw [hfront]
            exact .mk hblank (overlong_of_readValue hread)
        next =>
            split at h
            all_goals exact nomatch h
  · intro h
    obtain @⟨front, rest, hblank, hrest⟩ := h
    obtain ⟨tooLong, hread⟩ := readValue_overlong hrest
    obtain ⟨c, more, hcons, hspace, -, hmark⟩ := hrest.exists_cons
    have hhead : (front ++ rest).head? ≠ some '\ufeff' := hcons ▸ head?_ne_mark hblank hmark
    have hskip : skipSpace (front ++ rest) = rest := by
      rw [hcons]
      exact skipSpace_append hblank hspace more
    have hstop := hread (2 * (front ++ rest).length + 2) (by
      rw [List.length_append]
      omega)
    refine ⟨tooLong, ?_⟩
    simp only [parse, if_neg hhead, hskip, hstop]

end EditorBridge.Json
