/-
JSON text as a grammar, apart from the reader: which characters are the text of which value.
Beyond the standard there are names of what is no finite number, an escaped surrogate may stand
alone in a string, and of two fields with one key the later value counts.  Every text of the
grammar is read as its value.
-/
import EditorBridge.Json.Parser
import Mathlib.Data.List.TakeWhile

namespace EditorBridge.Json

/-- Characters that may stand between two parts of a text. -/
def IsSpacing (cs : List Char) : Prop := ∀ c ∈ cs, c ∈ [' ', '\t', '\n', '\r']

/-- A run of digits. -/
def IsRun (digits : List Char) : Prop := digits ≠ [] ∧ ∀ c ∈ digits, Text.isAsciiDigit c = true

/-- The whole part of a numeral: only that of zero begins with the digit zero. -/
def IsWholePart (digits : List Char) : Prop :=
  IsRun digits ∧ ∀ more, digits = '0' :: more → more = []

/-- The fraction of a numeral, which may be missing, and its digits. -/
inductive FractionText : List Char → List Char → Prop where
  | none : FractionText [] []
  | some {digits : List Char} (hdigits : IsRun digits) : FractionText ('.' :: digits) digits

def signed (negative : Bool) (size : Nat) : Int := if negative then -size else size

/-- The exponent of a numeral, which may be missing, and its value. -/
inductive ExponentText : List Char → Int → Prop where
  | none : ExponentText [] 0
  | some {mark : Char} {sign digits : List Char} {negative : Bool} (hmark : mark ∈ ['e', 'E'])
      (hsign : (sign, negative) ∈ [([], false), (['+'], false), (['-'], true)])
      (hdigits : IsRun digits) :
      ExponentText (mark :: (sign ++ digits)) (signed negative (Text.digitsValue digits))

/-- The sign of a numeral. -/
def signText (negative : Bool) : List Char := if negative then ['-'] else []

/-- The text of a number.  With neither fraction nor exponent it is an integer, which must not
be too long. -/
inductive NumeralText : List Char → Json → Prop where
  | int {negative : Bool} {whole : List Char} (hwhole : IsWholePart whole)
      (hlength : whole.length ≤ Text.maxNumeralDigits) :
      NumeralText (signText negative ++ whole) (.int (signed negative (Text.digitsValue whole)))
  | float {negative : Bool} {whole front fraction back : List Char} {power : Int}
      (hwhole : IsWholePart whole) (hfraction : FractionText front fraction)
      (hexponent : ExponentText back power) (hsome : front ++ back ≠ []) :
      NumeralText (signText negative ++ (whole ++ (front ++ back)))
        (.float (Number.Binary64.ofDecimal negative (Text.digitsValue (whole ++ fraction))
          (power - fraction.length)))

/-- Four hexadecimal digits and the unit that they denote. -/
inductive UnitText : List Char → Nat → Prop where
  | mk {a b c d : Char} {i j k l : Nat} (ha : Text.hexValue? a = some i)
      (hb : Text.hexValue? b = some j) (hc : Text.hexValue? c = some k)
      (hd : Text.hexValue? d = some l) :
      UnitText [a, b, c, d] (((i * 16 + j) * 16 + k) * 16 + l)

/-- Two units that denote one character together. -/
def IsPair (high low : Nat) : Prop :=
  0xd800 ≤ high ∧ high < 0xdc00 ∧ 0xdc00 ≤ low ∧ low < 0xe000

/-- The characters that are escaped by one other character. -/
def shortEscapes : List (Char × Char) :=
  [('\x22', '\x22'), ('\\', '\\'), ('/', '/'), ('b', '\x08'), ('f', '\x0c'), ('n', '\n'),
    ('r', '\r'), ('t', '\t')]

/-- What stands between the quotes of a string.  A unit stands alone when none follows that
makes a pair with it. -/
inductive StringText : List Char → List CodePoint → Prop where
  | nil : StringText [] []
  | plain {c : Char} {cs : List Char} {points : List CodePoint} (hquote : c ≠ '\x22')
      (hbackslash : c ≠ '\\') (hcontrol : 0x20 ≤ c.toNat) (hrest : StringText cs points) :
      StringText (c :: cs) (.char c :: points)
  | short {e c : Char} {cs : List Char} {points : List CodePoint}
      (hescape : (e, c) ∈ shortEscapes) (hrest : StringText cs points) :
      StringText ('\\' :: e :: cs) (.char c :: points)
  | pair {front back cs : List Char} {high low : Nat} {c : Char} {points : List CodePoint}
      (hhigh : UnitText front high) (hlow : UnitText back low) (hpair : IsPair high low)
      (hc : c.toNat = 0x10000 + (high - 0xd800) * 0x400 + (low - 0xdc00))
      (hrest : StringText cs points) :
      StringText ('\\' :: 'u' :: (front ++ '\\' :: 'u' :: (back ++ cs))) (.char c :: points)
  | alone {digits cs : List Char} {unit : Nat} {point : CodePoint} {points : List CodePoint}
      (hunit : UnitText digits unit) (hpoint : point.toNat = unit)
      (halone : ∀ back more low, cs = '\\' :: 'u' :: (back ++ more) → UnitText back low →
        ¬IsPair unit low)
      (hrest : StringText cs points) :
      StringText ('\\' :: 'u' :: (digits ++ cs)) (point :: points)

/-- A key with its colon, and the blanks in front of a value. -/
inductive KeyText : List Char → Text → Prop where
  | mk {cs front back : List Char} {points : List CodePoint} (hkey : StringText cs points)
      (hfront : IsSpacing front) (hback : IsSpacing back) :
      KeyText ('\x22' :: (cs ++ '\x22' :: (front ++ ':' :: back))) ⟨points⟩

def boolText : Bool → List Char
  | true => ['t', 'r', 'u', 'e']
  | false => ['f', 'a', 'l', 's', 'e']

/-- The fields of an object, given one after the other. -/
def fieldsOf (pairs : List (Text × Json)) : Fields :=
  pairs.foldl (fun fields pair => fields.set pair.1 pair.2) []

mutual

/-- The text of a value, without blanks around it. -/
inductive ValueText : List Char → Json → Prop where
  | null : ValueText ['n', 'u', 'l', 'l'] .null
  | bool (b : Bool) : ValueText (boolText b) (.bool b)
  | notANumber : ValueText ['N', 'a', 'N'] (.float Number.Binary64.notANumber)
  | infinity (negative : Bool) :
      ValueText (signText negative ++ ['I', 'n', 'f', 'i', 'n', 'i', 't', 'y'])
        (.float (Number.Binary64.infinity negative))
  | numeral {cs : List Char} {value : Json} (hnumeral : NumeralText cs value) :
      ValueText cs value
  | str {cs : List Char} {points : List CodePoint} (hpoints : StringText cs points) :
      ValueText ('\x22' :: (cs ++ ['\x22'])) (.str ⟨points⟩)
  | noItems {space : List Char} (hspace : IsSpacing space) :
      ValueText ('[' :: (space ++ [']'])) (.arr [])
  | arr {space cs : List Char} {items : List Json} (hspace : IsSpacing space)
      (hitems : ItemsText cs items) : ValueText ('[' :: (space ++ cs)) (.arr items)
  | noFields {space : List Char} (hspace : IsSpacing space) :
      ValueText ('\x7b' :: (space ++ ['\x7d'])) (.obj [])
  | obj {space cs : List Char} {pairs : List (Text × Json)} (hspace : IsSpacing space)
      (hfields : FieldsText cs pairs) : ValueText ('\x7b' :: (space ++ cs)) (.obj (fieldsOf pairs))

/-- The items of an array, up to its closing bracket. -/
inductive ItemsText : List Char → List Json → Prop where
  | last {cs back : List Char} {item : Json} (hitem : ValueText cs item) (hback : IsSpacing back) :
      ItemsText (cs ++ (back ++ [']'])) [item]
  | more {cs back front rest : List Char} {item : Json} {items : List Json}
      (hitem : ValueText cs item) (hback : IsSpacing back) (hfront : IsSpacing front)
      (hrest : ItemsText rest items) :
      ItemsText (cs ++ (back ++ ',' :: (front ++ rest))) (item :: items)

/-- The fields of an object, up to its closing brace. -/
inductive FieldsText : List Char → List (Text × Json) → Prop where
  | last {name cs back : List Char} {key : Text} {value : Json} (hkey : KeyText name key)
      (hvalue : ValueText cs value) (hback : IsSpacing back) :
      FieldsText (name ++ (cs ++ (back ++ ['\x7d']))) [(key, value)]
  | more {name cs back front rest : List Char} {key : Text} {value : Json}
      {pairs : List (Text × Json)} (hkey : KeyText name key) (hvalue : ValueText cs value)
      (hback : IsSpacing back) (hfront : IsSpacing front) (hrest : FieldsText rest pairs) :
      FieldsText (name ++ (cs ++ (back ++ ',' :: (front ++ rest)))) ((key, value) :: pairs)

end

/-- The whole of a text, with blanks around its value. -/
inductive IsText : List Char → Json → Prop where
  | mk {front cs back : List Char} {value : Json} (hfront : IsSpacing front)
      (hvalue : ValueText cs value) (hback : IsSpacing back) : IsText (front ++ (cs ++ back)) value

/-- What follows a run of digits begins with none. -/
def EndsRun (rest : List Char) : Prop := ∀ c ∈ rest.head?, Text.isAsciiDigit c = false

/-- What follows an integer begins with no digit, no fraction and no exponent. -/
structure EndsInteger (rest : List Char) : Prop where
  run : EndsRun rest
  fraction : ∀ front digits more, rest = front ++ more → FractionText front digits → front = []
  exponent : ∀ back power more, rest = back ++ more → ExponentText back power → back = []

/-- What may stand in an array in front of an item. -/
inductive ItemsFront : List Char → Prop where
  | first {space : List Char} (hspace : IsSpacing space) : ItemsFront space
  | more {space cs back rest : List Char} {item : Json} (hspace : IsSpacing space)
      (hitem : ValueText cs item) (hback : IsSpacing back) (hrest : ItemsFront rest) :
      ItemsFront (space ++ (cs ++ (back ++ ',' :: rest)))

/-- What may stand in an object in front of the value of a field. -/
inductive FieldsFront : List Char → Prop where
  | first {space name : List Char} {key : Text} (hspace : IsSpacing space)
      (hkey : KeyText name key) : FieldsFront (space ++ name)
  | more {space name cs back rest : List Char} {key : Text} {value : Json}
      (hspace : IsSpacing space) (hkey : KeyText name key) (hvalue : ValueText cs value)
      (hback : IsSpacing back) (hrest : FieldsFront rest) :
      FieldsFront (space ++ (name ++ (cs ++ (back ++ ',' :: rest))))

/-- The text of a value up to an integer too long to be converted, and anything behind it. -/
inductive Overlong : List Char → Prop where
  | int {negative : Bool} {whole rest : List Char} (hwhole : IsWholePart whole)
      (hlong : Text.maxNumeralDigits < whole.length) (hends : EndsInteger rest) :
      Overlong (signText negative ++ (whole ++ rest))
  | item {front rest : List Char} (hfront : ItemsFront front) (hrest : Overlong rest) :
      Overlong ('[' :: (front ++ rest))
  | field {front rest : List Char} (hfront : FieldsFront front) (hrest : Overlong rest) :
      Overlong ('\x7b' :: (front ++ rest))

/-- A text that could be one of the grammar but for an integer too long to be converted. -/
inductive IsOverlong : List Char → Prop where
  | mk {front rest : List Char} (hfront : IsSpacing front) (hrest : Overlong rest) :
      IsOverlong (front ++ rest)

theorem isSpace_iff {c : Char} : isSpace c = true ↔ c ∈ [' ', '\t', '\n', '\r'] := by
  simp only [isSpace, Bool.or_eq_true, beq_iff_eq, List.mem_cons, List.not_mem_nil, or_false,
    or_assoc]

/-- Blanks are skipped up to a character that is none. -/
theorem skipSpace_append {front : List Char} (hfront : IsSpacing front) {c : Char}
    (hc : isSpace c = false) (rest : List Char) : skipSpace (front ++ c :: rest) = c :: rest := by
  rw [skipSpace, List.dropWhile_append_of_pos fun d hd => isSpace_iff.mpr (hfront d hd),
    List.dropWhile_cons_of_neg]
  rw [hc]
  exact Bool.false_ne_true

theorem skipSpace_of_blank {cs : List Char} (hblank : IsSpacing cs) : skipSpace cs = [] :=
  List.dropWhile_eq_nil_iff.mpr fun c hc => isSpace_iff.mpr (hblank c hc)

/-! Strings. -/

theorem hexValue?_lt {c : Char} {value : Nat} (h : Text.hexValue? c = some value) :
    value < 16 := by
  unfold Text.hexValue? at h
  simp only [Bool.and_eq_true, decide_eq_true_eq] at h
  split at h
  next hrange =>
      rw [← Option.some.inj h]
      omega
  next =>
      split at h
      next hrange =>
          rw [← Option.some.inj h]
          omega
      next =>
          split at h
          next hrange =>
              rw [← Option.some.inj h]
              omega
          next => exact nomatch h

theorem UnitText.lt {digits : List Char} {unit : Nat} (h : UnitText digits unit) :
    unit < 0x10000 := by
  obtain ⟨ha, hb, hc, hd⟩ := h
  have := hexValue?_lt ha
  have := hexValue?_lt hb
  have := hexValue?_lt hc
  have := hexValue?_lt hd
  omega

theorem UnitText.length {digits : List Char} {unit : Nat} (h : UnitText digits unit) :
    digits.length = 4 := by
  cases h
  rfl

theorem unit?_append {digits : List Char} {unit : Nat} (h : UnitText digits unit)
    (rest : List Char) : unit? (digits ++ rest) = some unit := by
  obtain ⟨ha, hb, hc, hd⟩ := h
  simp only [List.cons_append, List.nil_append, unit?, ha, hb, hc, hd, Option.bind_eq_bind,
    Option.bind_some, Option.some.injEq]
  omega

/-- The code point of a unit is the one with its number. -/
theorem pointOfUnit_eq {point : CodePoint} {unit : Nat} (hpoint : point.toNat = unit)
    (hunit : unit < 0x10000) : pointOfUnit unit = point := by
  cases point with
  | char c =>
      have hvalid := c.valid
      have hnumber : c.val.toNat = unit := hpoint
      have halone : (isHighUnit unit || isLowUnit unit) = false := by
        rw [UInt32.isValidChar, Nat.isValidChar, hnumber] at hvalid
        simp only [isHighUnit, isLowUnit, Bool.or_eq_false_iff, Bool.and_eq_false_iff,
          decide_eq_false_iff_not]
        omega
      rw [pointOfUnit, halone, if_neg Bool.false_ne_true, ← hpoint]
      exact congrArg CodePoint.char (Char.ofNat_toNat c)
  | lone offset =>
      have hnumber : 0xd800 + offset.val = unit := hpoint
      have hlone : (isHighUnit unit || isLowUnit unit) = true := by
        simp only [isHighUnit, isLowUnit, Bool.or_eq_true, Bool.and_eq_true, decide_eq_true_eq]
        omega
      have hoffset : unit - 0xd800 = offset.val := by omega
      rw [pointOfUnit, hlone, if_pos rfl, hoffset]
      exact congrArg CodePoint.lone (Fin.ext (Nat.mod_eq_of_lt offset.isLt))

theorem isHighUnit_iff {unit : Nat} : isHighUnit unit = true ↔ 0xd800 ≤ unit ∧ unit < 0xdc00 := by
  simp only [isHighUnit, Bool.and_eq_true, decide_eq_true_eq]

theorem isLowUnit_iff {unit : Nat} : isLowUnit unit = true ↔ 0xdc00 ≤ unit ∧ unit < 0xe000 := by
  simp only [isLowUnit, Bool.and_eq_true, decide_eq_true_eq]

/-- Two escaped units that are a pair are read as one character, when something follows. -/
theorem joinUnits_pair {digits rest : List Char} {high low : Nat} {c : Char}
    (hlow : UnitText digits low) (hpair : IsPair high low)
    (hc : c.toNat = 0x10000 + (high - 0xd800) * 0x400 + (low - 0xdc00)) (hrest : rest ≠ []) :
    joinUnits high ('\\' :: 'u' :: (digits ++ rest)) = .ok (.char c, rest) := by
  have hhighUnit : isHighUnit high = true := isHighUnit_iff.mpr ⟨hpair.1, hpair.2.1⟩
  have hlowUnit : isLowUnit low = true := isLowUnit_iff.mpr hpair.2.2
  have hleft : ('\\' :: 'u' :: (digits ++ rest)).drop 6 = rest := by
    show (digits ++ rest).drop 4 = rest
    exact List.drop_left' hlow.length
  have hmore : rest.isEmpty = false := by
    rw [List.isEmpty_eq_false_iff]
    exact hrest
  have hunit : unit? (('\\' :: 'u' :: (digits ++ rest)).drop 2) = some low :=
    unit?_append hlow rest
  have hmark : "\\u".toList.isPrefixOf ('\\' :: 'u' :: (digits ++ rest)) = true := rfl
  have hpoint : pointOfPair high low = .char c := by
    rw [pointOfPair, ← hc, Char.ofNat_toNat]
  simp only [joinUnits, hhighUnit, hlowUnit, hleft, hmore, hmark, hunit, hpoint, Bool.not_false,
    Bool.and_self, if_true]

/-- What begins as an escaped unit in a string is one. -/
theorem StringText.exists_unit {cs more : List Char} {points : List CodePoint}
    (h : StringText cs points) {rest : List Char}
    (hbegin : cs ++ '\x22' :: rest = '\\' :: 'u' :: more) :
    ∃ digits tail unit, cs = '\\' :: 'u' :: (digits ++ tail) ∧ UnitText digits unit := by
  cases h with
  | nil => exact absurd (List.cons.inj hbegin).1 (by decide)
  | plain _ hbackslash => exact absurd (List.cons.inj hbegin).1 hbackslash
  | short hescape =>
      obtain rfl := (List.cons.inj (List.cons.inj hbegin).2).1
      have hmem : 'u' ∈ shortEscapes.map Prod.fst := List.mem_map_of_mem hescape
      exact absurd hmem (by decide)
  | pair hhigh => exact ⟨_, _, _, rfl, hhigh⟩
  | alone hunit => exact ⟨_, _, _, rfl, hunit⟩

/-- A unit that makes no pair with what follows in its string is read alone. -/
theorem joinUnits_alone {cs rest : List Char} {unit : Nat} {points : List CodePoint}
    (hrest : StringText cs points)
    (halone : ∀ back more low, cs = '\\' :: 'u' :: (back ++ more) → UnitText back low →
      ¬IsPair unit low) :
    joinUnits unit (cs ++ '\x22' :: rest) = .ok (pointOfUnit unit, cs ++ '\x22' :: rest) := by
  rw [joinUnits]
  split
  next hjoin =>
      simp only [Bool.and_eq_true, List.isPrefixOf_iff_prefix] at hjoin
      obtain ⟨⟨hhigh, -⟩, more, hmore⟩ := hjoin
      obtain ⟨digits, tail, low, rfl, hlow⟩ := hrest.exists_unit hmore.symm
      have hunit : unit? ((('\\' :: 'u' :: (digits ++ tail)) ++ '\x22' :: rest).drop 2) =
          some low := by
        show unit? ((digits ++ tail) ++ '\x22' :: rest) = some low
        rw [List.append_assoc]
        exact unit?_append hlow _
      have hnot : ¬isLowUnit low = true := by
        rw [isHighUnit_iff] at hhigh
        rw [isLowUnit_iff]
        exact fun hlowUnit =>
          halone digits tail low rfl hlow ⟨hhigh.1, hhigh.2, hlowUnit.1, hlowUnit.2⟩
      simp only [hunit, if_neg hnot]
  next => rfl

theorem readUnicodeEscape_append {digits rest : List Char} {unit : Nat}
    (hunit : UnitText digits unit) (hrest : rest ≠ []) :
    readUnicodeEscape (digits ++ rest) = joinUnits unit rest := by
  obtain ⟨next, more, rfl⟩ := List.exists_cons_of_ne_nil hrest
  simp only [readUnicodeEscape, unit?_append hunit, List.drop_left' hunit.length]

theorem unescape?_of_mem {e c : Char} (h : (e, c) ∈ shortEscapes) :
    e ≠ 'u' ∧ unescape? e = some c := by
  simp only [shortEscapes, List.mem_cons, Prod.mk.injEq, List.not_mem_nil, or_false] at h
  rcases h with ⟨rfl, rfl⟩ | ⟨rfl, rfl⟩ | ⟨rfl, rfl⟩ | ⟨rfl, rfl⟩ | ⟨rfl, rfl⟩ | ⟨rfl, rfl⟩ |
    ⟨rfl, rfl⟩ | ⟨rfl, rfl⟩
  all_goals exact ⟨by decide, rfl⟩

theorem readPoints_unicode {opened digits rest : List Char} {c : CodePoint}
    (hc : readUnicodeEscape digits = .ok (c, rest)) :
    readPoints opened ('\\' :: 'u' :: digits) =
      (readPoints opened rest).map fun (ds, left) => (c :: ds, left) := by
  rw [readPoints.eq_def]
  simp only [Char.reduceEq, if_false, if_true]
  split
  next stop hstop => rw [hc] at hstop; cases hstop
  next d left hread =>
      rw [hc] at hread
      obtain ⟨rfl, rfl⟩ := Prod.mk.inj (Except.ok.inj hread)
      rfl

/-- A string is read up to its closing quote. -/
theorem readPoints_text {cs : List Char} {points : List CodePoint} (h : StringText cs points)
    (opened rest : List Char) : readPoints opened (cs ++ '\x22' :: rest) = .ok (points, rest) := by
  induction h with
  | nil =>
      rw [List.nil_append, readPoints.eq_def]
      simp only [if_true]
  | plain hquote hbackslash hcontrol _ ih =>
      rw [List.cons_append, readPoints.eq_def]
      simp only [hquote, hbackslash, Nat.not_lt.mpr hcontrol, if_false, ih, Except.map]
  | short hescape _ ih =>
      obtain ⟨he, hc⟩ := unescape?_of_mem hescape
      rw [List.cons_append, List.cons_append, readPoints.eq_def]
      simp only [Char.reduceEq, if_false, if_true, he, hc, ih, Except.map]
  | @pair front back cs high low c points hhigh hlow hpair hc _ ih =>
      have hread : readUnicodeEscape (front ++ '\\' :: 'u' :: (back ++ (cs ++ '\x22' :: rest))) =
          .ok (.char c, cs ++ '\x22' :: rest) := by
        rw [readUnicodeEscape_append hhigh (by simp)]
        exact joinUnits_pair hlow hpair hc (by simp)
      simp only [List.cons_append, List.append_assoc]
      rw [readPoints_unicode hread, ih]
      rfl
  | @alone digits cs unit point points hunit hpoint halone hrest ih =>
      have hread : readUnicodeEscape (digits ++ (cs ++ '\x22' :: rest)) =
          .ok (point, cs ++ '\x22' :: rest) := by
        rw [readUnicodeEscape_append hunit (by simp), joinUnits_alone hrest halone,
          pointOfUnit_eq hpoint hunit.lt]
      simp only [List.cons_append, List.append_assoc]
      rw [readPoints_unicode hread, ih]
      rfl

theorem readString_text {cs : List Char} {points : List CodePoint} (h : StringText cs points)
    (rest : List Char) : readString (cs ++ '\x22' :: rest) = .ok (⟨points⟩, rest) := by
  rw [readString, readPoints_text h]
  rfl

/-! Numerals. -/

/-- What follows a numeral does not belong to it. -/
def EndsNumeral : List Char → Prop
  | [] => True
  | c :: _ => Text.isAsciiDigit c = false ∧ c ≠ '.' ∧ c ≠ 'e' ∧ c ≠ 'E'

theorem EndsNumeral.endsRun {rest : List Char} (h : EndsNumeral rest) : EndsRun rest := by
  intro c hc
  obtain ⟨more, rfl⟩ := List.head?_eq_some_iff.mp hc
  exact h.1

theorem takeWhile_run {digits rest : List Char} (hdigits : IsRun digits) (hrest : EndsRun rest) :
    (digits ++ rest).takeWhile Text.isAsciiDigit = digits ∧
      (digits ++ rest).dropWhile Text.isAsciiDigit = rest := by
  have hstop : rest.takeWhile Text.isAsciiDigit = [] ∧
      rest.dropWhile Text.isAsciiDigit = rest := by
    cases rest with
    | nil => exact ⟨rfl, rfl⟩
    | cons c more => simp [hrest c rfl]
  rw [List.takeWhile_append_of_pos hdigits.2, List.dropWhile_append_of_pos hdigits.2, hstop.1,
    hstop.2, List.append_nil]
  exact ⟨rfl, rfl⟩

theorem spanWhole_append {whole rest : List Char} (hwhole : IsWholePart whole)
    (hrest : EndsRun rest) : spanWhole (whole ++ rest) = (whole, rest) := by
  obtain ⟨c, more, rfl⟩ := List.exists_cons_of_ne_nil hwhole.1.1
  by_cases hc : c = '0'
  · obtain rfl := hwhole.2 more (by rw [hc])
    rw [hc]
    rfl
  · have hspan := takeWhile_run hwhole.1 hrest
    rw [spanWhole, hspan.1, hspan.2]
    exact fun _ heq => hc (List.cons.inj heq).1

theorem spanFraction_append {front fraction rest : List Char}
    (hfraction : FractionText front fraction) (hrest : EndsRun rest)
    (hpoint : ∀ more, rest ≠ '.' :: more) : spanFraction (front ++ rest) = (fraction, rest) := by
  cases hfraction with
  | none =>
      rw [List.nil_append, spanFraction]
      exact fun more heq => hpoint more heq
  | some hdigits =>
      have hspan := takeWhile_run hdigits hrest
      obtain ⟨c, more, rfl⟩ := List.exists_cons_of_ne_nil hdigits.1
      rw [List.cons_append, spanFraction, hspan.1, hspan.2]

theorem digit_ne_sign {c : Char} (hc : Text.isAsciiDigit c = true) : c ≠ '-' ∧ c ≠ '+' := by
  constructor
  all_goals
    rintro rfl
    exact absurd hc (by decide)

/-- What is read of an exponent: nothing when there is none. -/
theorem spanExponent_append {back rest : List Char} {power : Int}
    (hexponent : ExponentText back power) (hrest : EndsNumeral rest) :
    spanExponent (back ++ rest) = (if back = [] then none else some power, rest) := by
  cases hexponent with
  | none =>
      cases rest with
      | nil => rfl
      | cons c more => simp [spanExponent, hrest.2.2.1, hrest.2.2.2]
  | @some mark sign digits negative hmark hsign hdigits =>
      have hspan := takeWhile_run hdigits hrest.endsRun
      obtain ⟨c, more, hcons⟩ := List.exists_cons_of_ne_nil hdigits.1
      have hc : Text.isAsciiDigit c = true := hdigits.2 c (hcons ▸ List.mem_cons_self)
      have hne := digit_ne_sign hc
      have hmark' : (mark = 'e' || mark = 'E') = true := by simpa using hmark
      simp only [List.mem_cons, Prod.mk.injEq, List.not_mem_nil, or_false] at hsign
      rw [hcons] at hspan
      rcases hsign with ⟨rfl, rfl⟩ | ⟨rfl, rfl⟩ | ⟨rfl, rfl⟩
      all_goals
        simp only [List.nil_append, List.cons_append, hcons] at hspan ⊢
        simp [spanExponent, hmark', hspan, signed, hne.1, hne.2]

theorem EndsNumeral.endsRun_append {back rest : List Char} {power : Int}
    (hexponent : ExponentText back power) (hrest : EndsNumeral rest) :
    EndsRun (back ++ rest) ∧ ∀ more, back ++ rest ≠ '.' :: more := by
  cases hexponent with
  | none =>
      refine ⟨hrest.endsRun, fun more heq => ?_⟩
      rw [List.nil_append] at heq
      rw [heq] at hrest
      exact hrest.2.1 rfl
  | some hmark =>
      simp only [List.mem_cons, List.not_mem_nil, or_false] at hmark
      constructor
      · intro c hc
        rw [List.cons_append, List.head?_cons, Option.mem_def, Option.some.injEq] at hc
        rw [← hc]
        rcases hmark with rfl | rfl
        all_goals decide
      · intro more heq
        have hpoint := (List.cons.inj heq).1
        rcases hmark with rfl | rfl
        all_goals exact absurd hpoint (by decide)

theorem readNumeral_int {negative : Bool} {whole rest : List Char} (hwhole : IsWholePart whole)
    (hlength : whole.length ≤ Text.maxNumeralDigits) (hrest : EndsNumeral rest) (left : Nat) :
    readNumeral negative left (whole ++ rest) =
      .ok (.int (signed negative (Text.digitsValue whole)), rest) := by
  have hnone : whole.isEmpty = false := List.isEmpty_eq_false_iff.mpr hwhole.1.1
  have hends := hrest.endsRun_append .none
  have hfraction := spanFraction_append .none hends.1 hends.2
  have hexponent := spanExponent_append .none hrest
  simp only [List.nil_append, if_true] at hfraction hexponent
  simp only [readNumeral, spanWhole_append hwhole hrest.endsRun, hnone, hfraction, hexponent,
    Text.readDigits, Nat.not_lt.mpr hlength, Bool.false_eq_true, if_false, List.isEmpty_nil,
    Option.isNone_none, Bool.and_self, if_true]
  rfl

theorem readNumeral_float {negative : Bool} {whole front fraction back rest : List Char}
    {power : Int} (hwhole : IsWholePart whole) (hfraction : FractionText front fraction)
    (hexponent : ExponentText back power) (hsome : front ++ back ≠ [])
    (hrest : EndsNumeral rest) (left : Nat) :
    readNumeral negative left (whole ++ (front ++ back) ++ rest) =
      .ok (.float (Number.Binary64.ofDecimal negative (Text.digitsValue (whole ++ fraction))
        (power - fraction.length)), rest) := by
  have hnone : whole.isEmpty = false := List.isEmpty_eq_false_iff.mpr hwhole.1.1
  have hends := hrest.endsRun_append hexponent
  have hbehind : EndsRun (front ++ (back ++ rest)) := by
    cases hfraction with
    | none => exact hends.1
    | some =>
        intro c hc
        rw [List.cons_append, List.head?_cons, Option.mem_def, Option.some.injEq] at hc
        rw [← hc]
        decide
  -- A fraction without digits and a missing exponent would make it an integer.
  have hfloat : (fraction.isEmpty && (if back = [] then none else some power).isNone) = false := by
    cases hfraction with
    | none =>
        rw [List.nil_append] at hsome
        simp [hsome]
    | some hdigits => simp [hdigits.1]
  have hpower : (if back = [] then none else some power).getD 0 = power := by
    cases hexponent with
    | none => rfl
    | some => rfl
  simp only [List.append_assoc, readNumeral, spanWhole_append hwhole hbehind, hnone,
    spanFraction_append hfraction hends.1 hends.2, spanExponent_append hexponent hrest, hfloat,
    hpower, Bool.false_eq_true, if_false]

theorem digit_ne {c : Char} (hc : Text.isAsciiDigit c = true) :
    c ∉ ['\x22', '[', '\x7b', '-', 'n', 't', 'f', 'N', 'I', ' ', '\t', '\n', '\r', ']',
      '\ufeff'] := by
  intro hmem
  simp only [List.mem_cons, List.not_mem_nil, or_false] at hmem
  rcases hmem with rfl | rfl | rfl | rfl | rfl | rfl | rfl | rfl | rfl | rfl | rfl | rfl | rfl |
    rfl | rfl
  all_goals exact absurd hc (by decide)

/-- No name begins with a digit, whatever its sign. -/
theorem find?_names_eq_none {c : Char} (hc : Text.isAsciiDigit c = true) (cs : List Char) :
    names.find? (fun entry => entry.1.isPrefixOf (c :: cs)) = none ∧
      names.find? (fun entry => entry.1.isPrefixOf ('-' :: c :: cs)) = none := by
  have hne := digit_ne hc
  simp only [List.mem_cons, List.not_mem_nil, or_false, not_or] at hne
  obtain ⟨-, -, -, hminus, hn, ht, hf, hN, hI, -⟩ := hne
  have hnames : names.map Prod.fst = [['n', 'u', 'l', 'l'], ['t', 'r', 'u', 'e'],
      ['f', 'a', 'l', 's', 'e'], ['N', 'a', 'N'], ['I', 'n', 'f', 'i', 'n', 'i', 't', 'y'],
      ['-', 'I', 'n', 'f', 'i', 'n', 'i', 't', 'y']] := rfl
  simp only [List.find?_eq_none]
  constructor
  all_goals
    intro entry hentry
    have hname := List.mem_map_of_mem (f := Prod.fst) hentry
    rw [hnames] at hname
    simp only [List.mem_cons, List.not_mem_nil, or_false] at hname
    rcases hname with h | h | h | h | h | h
    all_goals
      rw [h]
      simp [Ne.symm hminus, Ne.symm hn, Ne.symm ht, Ne.symm hf, Ne.symm hN, Ne.symm hI]

/-- What begins with a digit, whatever its sign, is read as a numeral. -/
theorem readScalar_of_digit (negative : Bool) {c : Char} (hc : Text.isAsciiDigit c = true)
    (cs : List Char) : ∃ left, readScalar (signText negative ++ c :: cs) =
      readNumeral negative left (c :: cs) := by
  have hnames := find?_names_eq_none hc cs
  cases negative with
  | true =>
      refine ⟨('-' :: c :: cs).length, ?_⟩
      show readScalar ('-' :: c :: cs) = _
      rw [readScalar, hnames.2]
  | false =>
      refine ⟨(c :: cs).length, ?_⟩
      show readScalar (c :: cs) = _
      rw [readScalar, hnames.1]
      intro rest heq
      rw [(List.cons.inj heq).1] at hc
      exact absurd hc (by decide)

theorem readScalar_numeral {cs : List Char} {value : Json} (h : NumeralText cs value)
    {rest : List Char} (hrest : EndsNumeral rest) :
    readScalar (cs ++ rest) = .ok (value, rest) := by
  cases h with
  | @int negative whole hwhole hlength =>
      obtain ⟨c, more, rfl⟩ := List.exists_cons_of_ne_nil hwhole.1.1
      obtain ⟨left, hread⟩ := readScalar_of_digit negative (hwhole.1.2 c List.mem_cons_self)
        (more ++ rest)
      rw [List.append_assoc, List.cons_append, hread]
      exact readNumeral_int hwhole hlength hrest left
  | @float negative whole front fraction back power hwhole hfraction hexponent hsome =>
      obtain ⟨c, more, rfl⟩ := List.exists_cons_of_ne_nil hwhole.1.1
      obtain ⟨left, hread⟩ := readScalar_of_digit negative (hwhole.1.2 c List.mem_cons_self)
        (more ++ (front ++ back) ++ rest)
      rw [List.append_assoc, List.cons_append, List.cons_append, hread]
      exact readNumeral_float hwhole hfraction hexponent hsome hrest left

/-! Values. -/

/-- A numeral begins with its sign or a digit. -/
theorem IsWholePart.exists_cons {whole : List Char} (hwhole : IsWholePart whole) (negative : Bool)
    (back : List Char) : ∃ c more, signText negative ++ (whole ++ back) = c :: more ∧
      (c = '-' ∨ Text.isAsciiDigit c = true) := by
  obtain ⟨c, more, rfl⟩ := List.exists_cons_of_ne_nil hwhole.1.1
  cases negative with
  | true => exact ⟨_, _, rfl, Or.inl rfl⟩
  | false => exact ⟨_, _, rfl, Or.inr (hwhole.1.2 c List.mem_cons_self)⟩

theorem NumeralText.exists_cons {cs : List Char} {value : Json} (h : NumeralText cs value) :
    ∃ c more, cs = c :: more ∧ (c = '-' ∨ Text.isAsciiDigit c = true) := by
  cases h with
  | @int negative whole hwhole =>
      have hint := hwhole.exists_cons negative []
      rwa [List.append_nil] at hint
  | float hwhole => exact hwhole.exists_cons _ _

/-- What begins a numeral begins nothing else, and neither is skipped nor ends an array nor
marks the order of octets. -/
theorem ne_of_begins_numeral {c : Char} (hc : c = '-' ∨ Text.isAsciiDigit c = true) :
    c ∉ ['\x22', '[', '\x7b'] ∧ isSpace c = false ∧ c ≠ ']' ∧ c ≠ '\ufeff' := by
  rcases hc with rfl | hc
  · decide
  · have hne := digit_ne hc
    simp only [List.mem_cons, List.not_mem_nil, or_false, not_or] at hne
    simp [isSpace, hne]

/-- The text of a value begins with a character that neither is skipped nor ends an array
nor marks the order of octets. -/
theorem ValueText.exists_cons {cs : List Char} {value : Json} (h : ValueText cs value) :
    ∃ c more, cs = c :: more ∧ isSpace c = false ∧ c ≠ ']' ∧ c ≠ '\ufeff' := by
  cases h with
  | bool b => cases b <;> exact ⟨_, _, rfl, by decide⟩
  | infinity negative => cases negative <;> exact ⟨_, _, rfl, by decide⟩
  | numeral hnumeral =>
      obtain ⟨c, more, rfl, hc⟩ := hnumeral.exists_cons
      exact ⟨c, more, rfl, (ne_of_begins_numeral hc).2⟩
  | _ => exact ⟨_, _, rfl, by decide⟩

theorem ItemsText.exists_cons {cs : List Char} {items : List Json} (h : ItemsText cs items) :
    ∃ c more, cs = c :: more ∧ isSpace c = false ∧ c ≠ ']' := by
  cases h with
  | last hitem =>
      obtain ⟨c, more, rfl, hspace, hbracket, -⟩ := hitem.exists_cons
      exact ⟨c, _, rfl, hspace, hbracket⟩
  | more hitem =>
      obtain ⟨c, more, rfl, hspace, hbracket, -⟩ := hitem.exists_cons
      exact ⟨c, _, rfl, hspace, hbracket⟩

theorem KeyText.exists_cons {cs : List Char} {key : Text} (h : KeyText cs key) :
    ∃ more, cs = '\x22' :: more := by
  cases h
  exact ⟨_, rfl⟩

theorem FieldsText.exists_cons {cs : List Char} {pairs : List (Text × Json)}
    (h : FieldsText cs pairs) : ∃ more, cs = '\x22' :: more := by
  cases h with
  | last hkey =>
      obtain ⟨more, rfl⟩ := hkey.exists_cons
      exact ⟨_, rfl⟩
  | more hkey =>
      obtain ⟨more, rfl⟩ := hkey.exists_cons
      exact ⟨_, rfl⟩

theorem readValue_scalar {c : Char} (hc : c ∉ ['\x22', '[', '\x7b']) (fuel : Nat)
    (cs : List Char) : readValue (fuel + 1) (c :: cs) = readScalar (c :: cs) := by
  simp only [List.mem_cons, List.not_mem_nil, or_false, not_or] at hc
  rw [readValue]
  · exact fun _ heq => hc.1 (List.cons.inj heq).1
  · exact fun _ heq => hc.2.1 (List.cons.inj heq).1
  · exact fun _ heq => hc.2.2 (List.cons.inj heq).1

theorem readValue_numeral {cs : List Char} {value : Json} (h : NumeralText cs value) (fuel : Nat)
    {rest : List Char} (hrest : EndsNumeral rest) :
    readValue (fuel + 1) (cs ++ rest) = .ok (value, rest) := by
  have hread := readScalar_numeral h hrest
  obtain ⟨c, more, rfl, hc⟩ := h.exists_cons
  rw [List.cons_append] at hread ⊢
  rw [readValue_scalar (ne_of_begins_numeral hc).1, hread]

/-- An array is read by its items when a first one begins. -/
theorem readValue_bracket {c : Char} {cs rest left : List Char} {items : List Json} {fuel : Nat}
    (hspace : skipSpace rest = c :: cs) (hc : c ≠ ']')
    (hitems : readItems fuel (c :: cs) = .ok (items, left)) :
    readValue (fuel + 1) ('[' :: rest) = .ok (.arr items, left) := by
  simp only [readValue, hspace]
  split
  next heq => exact absurd (List.cons.inj heq).1 hc
  next => rw [hitems, Except.map]

/-- An object is read by its fields when a first one begins. -/
theorem readValue_brace {cs rest left : List Char} {fields : Fields} {fuel : Nat}
    (hspace : skipSpace rest = '\x22' :: cs)
    (hfields : readFields fuel [] ('\x22' :: cs) = .ok (fields, left)) :
    readValue (fuel + 1) ('\x7b' :: rest) = .ok (.obj fields, left) := by
  simp only [readValue, hspace]
  split
  next heq => exact absurd (List.cons.inj heq).1 (by decide)
  next => rw [hfields, Except.map]

theorem endsNumeral_cons {c : Char} (hc : c ∈ [' ', '\t', '\n', '\r', ',', ']', '\x7d'])
    (rest : List Char) : EndsNumeral (c :: rest) := by
  simp only [List.mem_cons, List.not_mem_nil, or_false] at hc
  rcases hc with rfl | rfl | rfl | rfl | rfl | rfl | rfl
  all_goals exact ⟨by decide, by decide, by decide, by decide⟩

/-- A blank ends a numeral. -/
theorem endsNumeral_append {back : List Char} (hback : IsSpacing back) {rest : List Char}
    (hrest : EndsNumeral rest) : EndsNumeral (back ++ rest) := by
  cases back with
  | nil => exact hrest
  | cons c more =>
      have hc := hback c List.mem_cons_self
      refine endsNumeral_cons ?_ _
      simp only [List.mem_cons, List.not_mem_nil, or_false] at hc ⊢
      rcases hc with rfl | rfl | rfl | rfl
      all_goals simp

/-- Read what follows a field: the end of the object, or a comma and another field. -/
def readMoreFields (fuel : Nat) (fields : Fields) (rest : List Char) : Reading Fields :=
  match skipSpace rest with
  | '\x7d' :: left => .ok (fields, left)
  | ',' :: rest => readFields fuel fields (skipSpace rest)
  | rest => .error (.complaint .expectingComma rest.length)

theorem readFields_of_error {name cs : List Char} {key : Text} {c : Char} {fuel : Nat} {stop : Stop}
    (hkey : KeyText name key) (hc : isSpace c = false)
    (hvalue : readValue fuel (c :: cs) = .error stop) (seen : Fields) :
    readFields (fuel + 1) seen (name ++ c :: cs) = .error stop := by
  obtain ⟨hpoints, hfront, hback⟩ := hkey
  simp only [List.cons_append, List.append_assoc]
  rw [readFields, readString_text hpoints]
  simp only [skipSpace_append hfront (c := ':') (by decide), skipSpace_append hback hc, hvalue]

/-- A field is read up to what follows its value. -/
theorem readFields_field {name cs rest : List Char} {key : Text} {value : Json} {c : Char}
    {fuel : Nat} (hkey : KeyText name key) (hc : isSpace c = false)
    (hvalue : readValue fuel (c :: cs) = .ok (value, rest)) (seen : Fields) :
    readFields (fuel + 1) seen (name ++ c :: cs) =
      readMoreFields fuel (seen.set key value) rest := by
  obtain ⟨hpoints, hfront, hback⟩ := hkey
  simp only [List.cons_append, List.append_assoc]
  rw [readFields, readString_text hpoints]
  simp only [skipSpace_append hfront (c := ':') (by decide), skipSpace_append hback hc, hvalue]
  rfl

mutual

/-- The text of a value is read as the value, with as much fuel as it has characters. -/
theorem readValue_text {cs : List Char} {value : Json} (h : ValueText cs value) (fuel : Nat)
    {rest : List Char} (hrest : EndsNumeral rest) (hfuel : cs.length ≤ fuel) :
    readValue fuel (cs ++ rest) = .ok (value, rest) := by
  obtain ⟨c, more, hcons, -⟩ := h.exists_cons
  obtain ⟨k, rfl⟩ : ∃ k, fuel = k + 1 := by
    rw [hcons, List.length_cons] at hfuel
    exact ⟨fuel - 1, by omega⟩
  match h with
  | .null | .notANumber => rfl
  | .bool b => cases b <;> rfl
  | .infinity negative => cases negative <;> rfl
  | .numeral hnumeral => exact readValue_numeral hnumeral k hrest
  | .str hpoints =>
      rw [List.cons_append, List.append_assoc, List.singleton_append, readValue,
        readString_text hpoints]
      rfl
  | .noItems hspace =>
      simp only [List.cons_append, List.append_assoc, List.nil_append, readValue,
        skipSpace_append hspace (c := ']') (by decide)]
  | .arr hspace hitems =>
      obtain ⟨d, tail, hfirst, hd, hbracket⟩ := hitems.exists_cons
      rw [List.length_cons, List.length_append] at hfuel
      have hread := readItems_text hitems k rest (by omega)
      rw [hfirst, List.cons_append] at hread
      rw [List.cons_append, List.append_assoc, hfirst, List.cons_append]
      exact readValue_bracket (skipSpace_append hspace hd _) hbracket hread
  | .noFields hspace =>
      simp only [List.cons_append, List.append_assoc, List.nil_append, readValue,
        skipSpace_append hspace (c := '\x7d') (by decide)]
  | .obj hspace hfields =>
      obtain ⟨tail, hfirst⟩ := hfields.exists_cons
      rw [List.length_cons, List.length_append] at hfuel
      have hread := readFields_text hfields k [] rest (by omega)
      rw [hfirst, List.cons_append] at hread
      rw [List.cons_append, List.append_assoc, hfirst, List.cons_append]
      exact readValue_brace (skipSpace_append hspace (by decide) _) hread

theorem readItems_text {cs : List Char} {items : List Json} (h : ItemsText cs items) (fuel : Nat)
    (rest : List Char) (hfuel : cs.length ≤ fuel) :
    readItems fuel (cs ++ rest) = .ok (items, rest) := by
  match h with
  | .last hitem hback =>
      simp only [List.length_append, List.length_singleton] at hfuel
      obtain ⟨k, rfl⟩ : ∃ k, fuel = k + 1 := ⟨fuel - 1, by omega⟩
      have hread := readValue_text hitem k
        (endsNumeral_append hback (endsNumeral_cons (c := ']') (by decide) rest)) (by omega)
      rw [List.append_assoc, List.append_assoc, List.singleton_append, readItems, hread]
      simp only [skipSpace_append hback (c := ']') (by decide)]
  | @ItemsText.more _ _ front more _ _ hitem hback hfront hmore =>
      obtain ⟨d, tail, hfirst, hd, -⟩ := hmore.exists_cons
      simp only [List.length_append, List.length_cons] at hfuel
      obtain ⟨k, rfl⟩ : ∃ k, fuel = k + 1 := ⟨fuel - 1, by omega⟩
      have hread := readValue_text hitem k
        (endsNumeral_append hback
          (endsNumeral_cons (c := ',') (by decide) (front ++ (more ++ rest)))) (by omega)
      have hitems := readItems_text hmore k rest (by omega)
      rw [hfirst, List.cons_append] at hitems hread
      simp only [List.append_assoc, List.cons_append, hfirst]
      rw [readItems, hread]
      simp only [skipSpace_append hback (c := ',') (by decide), skipSpace_append hfront hd, hitems,
        Except.map]

theorem readFields_text {cs : List Char} {pairs : List (Text × Json)} (h : FieldsText cs pairs)
    (fuel : Nat) (seen : Fields) (rest : List Char) (hfuel : cs.length ≤ fuel) :
    readFields fuel seen (cs ++ rest) =
      .ok (pairs.foldl (fun fields pair => fields.set pair.1 pair.2) seen, rest) := by
  match h with
  | .last hkey hvalue hback =>
      obtain ⟨c, tail, hcons, hc, -⟩ := hvalue.exists_cons
      simp only [List.length_append, List.length_singleton] at hfuel
      obtain ⟨k, rfl⟩ : ∃ k, fuel = k + 1 := ⟨fuel - 1, by omega⟩
      have hread := readValue_text hvalue k
        (endsNumeral_append hback (endsNumeral_cons (c := '\x7d') (by decide) rest)) (by omega)
      rw [hcons, List.cons_append] at hread
      simp only [List.append_assoc, hcons, List.cons_append, List.nil_append]
      rw [readFields_field hkey hc hread, readMoreFields]
      simp only [skipSpace_append hback (c := '\x7d') (by decide)]
      rfl
  | @FieldsText.more _ _ _ front more _ _ _ hkey hvalue hback hfront hmore =>
      obtain ⟨c, tail, hcons, hc, -⟩ := hvalue.exists_cons
      obtain ⟨next, hfirst⟩ := hmore.exists_cons
      simp only [List.length_append, List.length_cons] at hfuel
      obtain ⟨k, rfl⟩ : ∃ k, fuel = k + 1 := ⟨fuel - 1, by omega⟩
      have hread := readValue_text hvalue k
        (endsNumeral_append hback
          (endsNumeral_cons (c := ',') (by decide) (front ++ (more ++ rest)))) (by omega)
      have hfields := fun seen => readFields_text hmore k seen rest (by omega)
      rw [hcons, List.cons_append, hfirst, List.cons_append] at hread
      simp only [hfirst, List.cons_append] at hfields
      simp only [List.append_assoc, hcons, List.cons_append, hfirst]
      rw [readFields_field hkey hc hread, readMoreFields]
      simp only [skipSpace_append hback (c := ',') (by decide),
        skipSpace_append hfront (c := '\x22') (by decide), hfields, List.foldl_cons]

end

/-- Behind blanks no mark of the order of octets comes first. -/
theorem head?_ne_mark {front : List Char} (hfront : IsSpacing front) {c : Char}
    (hc : c ≠ '\ufeff') {rest : List Char} : (front ++ c :: rest).head? ≠ some '\ufeff' := by
  cases front with
  | nil => exact fun heq => hc (Option.some.inj heq)
  | cons d tail =>
      have hd := hfront d List.mem_cons_self
      rintro ⟨⟩
      exact absurd hd (by decide)

/-- A text of the grammar is read as its value. -/
theorem parse_text {cs : List Char} {value : Json} (h : IsText cs value) :
    parse cs = .ok value := by
  obtain @⟨front, cs, back, value, hfront, hvalue, hback⟩ := h
  obtain ⟨c, more, hcons, hc, -, hmark⟩ := hvalue.exists_cons
  have hbehind : EndsNumeral back := by
    have hends : EndsNumeral (back ++ []) := endsNumeral_append hback trivial
    rwa [List.append_nil] at hends
  have hhead : (front ++ (cs ++ back)).head? ≠ some '\ufeff' := by
    rw [hcons, List.cons_append]
    exact head?_ne_mark hfront hmark
  have hspace : skipSpace (front ++ (cs ++ back)) = cs ++ back := by
    rw [hcons, List.cons_append]
    exact skipSpace_append hfront hc _
  have hread := readValue_text hvalue (2 * (front ++ (cs ++ back)).length + 2) hbehind (by
    simp only [List.length_append]
    omega)
  simp only [parse, if_neg hhead, hspace, hread, skipSpace_of_blank hback]

end EditorBridge.Json
