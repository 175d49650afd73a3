/-
Compact JSON text is a text of the grammar, and so it is read back as the value that it was
written for.
-/
import EditorBridge.Json.Printer
import EditorBridge.Proofs.Decimal
import EditorBridge.Proofs.JsonGrammar
import EditorBridge.Text.Encoding

namespace EditorBridge.Json

/-- A value that can be read back: it has no number with a point, no integer of more
digits than are converted, no lone surrogate, and no two fields with one key. -/
inductive Plain : Json → Prop where
  | null : Plain .null
  | bool (b : Bool) : Plain (.bool b)
  | int {n : Int} (hdigits : Text.IsConvertible n.natAbs) : Plain (.int n)
  | str {s : Text} (hwhole : Text.isWhole s.points = true) : Plain (.str s)
  | arr {items : List Json} (hitems : ∀ item ∈ items, Plain item) : Plain (.arr items)
  | obj {fields : Fields} (hkeys : ∀ field ∈ fields, Text.isWhole field.1.points = true)
      (hdistinct : (fields.map Prod.fst).Nodup)
      (hvalues : ∀ field ∈ fields, Plain field.2) : Plain (.obj fields)

theorem hexValue?_hexDigit : ∀ n < 16, Text.hexValue? (Text.hexDigit n) = some n := by decide

/-- A unit is denoted by its four hexadecimal digits. -/
theorem unitText_hexDigits {n : Nat} (h : n < 0x10000) : UnitText (Text.hexDigits 4 n) n := by
  have hdigits : Text.hexDigits 4 n =
      [Text.hexDigit (n / 16 / 16 / 16 % 16), Text.hexDigit (n / 16 / 16 % 16),
        Text.hexDigit (n / 16 % 16), Text.hexDigit (n % 16)] := rfl
  have hvalue : ∀ m, Text.hexValue? (Text.hexDigit (m % 16)) = some (m % 16) :=
    fun m => hexValue?_hexDigit _ (Nat.mod_lt m (by decide))
  have htext := UnitText.mk (hvalue (n / 16 / 16 / 16)) (hvalue (n / 16 / 16)) (hvalue (n / 16))
    (hvalue n)
  have hunit : (((n / 16 / 16 / 16 % 16) * 16 + n / 16 / 16 % 16) * 16 + n / 16 % 16) * 16 +
      n % 16 = n := by omega
  rw [hunit] at htext
  rw [hdigits]
  exact htext

/-- A character is escaped with one other character, as a control with its unit, or not
at all. -/
theorem escape_cases (c : Char) :
    (∃ e, (e, c) ∈ shortEscapes ∧ escape c = ['\\', e]) ∨
      (c.toNat < 0x20 ∧ escape c = '\\' :: 'u' :: Text.hexDigits 4 c.toNat) ∨
      (c ≠ '\x22' ∧ c ≠ '\\' ∧ ¬c.toNat < 0x20 ∧ escape c = [c]) := by
  by_cases hshort : c ∈ ['\x22', '\\', '\n', '\r', '\t', '\x0c', '\x08']
  · left
    simp only [List.mem_cons, List.not_mem_nil, or_false] at hshort
    rcases hshort with rfl | rfl | rfl | rfl | rfl | rfl | rfl
    all_goals exact ⟨_, by decide, rfl⟩
  · right
    simp only [List.mem_cons, List.not_mem_nil, or_false, not_or] at hshort
    obtain ⟨hquote, hbackslash, hfeed, hreturn, htab, hform, hback⟩ := hshort
    simp only [escape, hquote, hbackslash, hfeed, hreturn, htab, hform, hback, if_false]
    by_cases hcontrol : c.toNat < 0x20
    · exact Or.inl ⟨hcontrol, if_pos hcontrol⟩
    · exact Or.inr ⟨hquote, hbackslash, hcontrol, if_neg hcontrol⟩

/-- Escaped characters are the text of a string. -/
theorem stringText_escape (cs : List Char) :
    StringText (cs.flatMap escape) (Text.glyphs cs) := by
  induction cs with
  | nil => exact .nil
  | cons c more ih =>
      rw [List.flatMap_cons]
      rcases escape_cases c with ⟨e, he, hescape⟩ | ⟨hcontrol, hescape⟩ |
        ⟨hquote, hbackslash, hcontrol, hescape⟩
      · rw [hescape]
        exact .short he ih
      · have hunit := unitText_hexDigits (n := c.toNat) (by omega)
        have halone : ∀ back rest low, more.flatMap escape = '\\' :: 'u' :: (back ++ rest) →
            UnitText back low → ¬IsPair c.toNat low := by
          intro back rest low _ _ hpair
          have := hpair.1
          omega
        rw [hescape, List.cons_append, List.cons_append]
        exact .alone hunit rfl halone ih
      · rw [hescape]
        exact .plain hquote hbackslash (Nat.not_lt.mp hcontrol) ih

/-- JSON text in characters, which has none for a lone surrogate. -/
def charScript : Script Char := ⟨id, fun point => (point.char?.map escape).getD []⟩

@[simp] theorem glyph_charScript (c : Char) : charScript.glyph c = c := rfl

theorem printWith_int (n : Int) : printWith charScript (.int n) = Text.signedDecimal n := by
  rw [printWith]
  exact List.map_id _

theorem flatMap_charScript (points : List CodePoint) :
    points.flatMap charScript.escape = (Text.chars points).flatMap escape := by
  induction points with
  | nil => rfl
  | cons point rest ih =>
      cases point with
      | char c =>
          rw [List.flatMap_cons, ih]
          rfl
      | lone offset => exact ih

theorem stringText_points {s : Text} (hs : Text.isWhole s.points = true) :
    StringText (s.points.flatMap charScript.escape) s.points := by
  have htext := stringText_escape (Text.chars s.points)
  rwa [← flatMap_charScript, Text.glyphs_chars hs] at htext

theorem isWholePart_decimal (n : Nat) : IsWholePart (Text.decimal n) := by
  obtain ⟨c, cs, hcons, -, hzero⟩ := Text.decimal_eq_cons n
  refine ⟨⟨?_, Text.isAsciiDigit_of_mem_decimal n⟩, fun more heq => ?_⟩
  · rw [hcons]
    exact List.cons_ne_nil c cs
  · rw [hcons] at heq
    obtain ⟨hc, rfl⟩ := List.cons.inj heq
    exact (hzero hc).2

theorem numeralText_signedDecimal {n : Int} (hn : Text.IsConvertible n.natAbs) :
    NumeralText (Text.signedDecimal n) (.int n) := by
  have hwritten := fun negative => @NumeralText.int negative _ (isWholePart_decimal n.natAbs)
    (Text.length_decimal_of_isConvertible hn)
  rw [Text.digitsValue_decimal] at hwritten
  cases n with
  | ofNat n => exact hwritten false
  | negSucc n => exact hwritten true

theorem printItems_cons_cons (item next : Json) (more : List Json) :
    printItems charScript (item :: next :: more) =
      printWith charScript item ++ ',' :: printItems charScript (next :: more) := by
  simp only [printItems, printMoreItems, glyph_charScript, List.cons_append]

/-- No blanks are written. -/
theorem isSpacing_nil : IsSpacing [] := fun _ hc => absurd hc List.not_mem_nil

theorem itemsText_printItems {item : Json} {items : List Json}
    (hitems : ∀ other ∈ item :: items, ValueText (printWith charScript other) other) :
    ItemsText (printItems charScript (item :: items)) (item :: items) := by
  induction items generalizing item with
  | nil =>
      simp only [printItems, printMoreItems, glyph_charScript]
      exact .last (hitems item List.mem_cons_self) isSpacing_nil
  | cons next more ih =>
      have hmore := ih fun other hother => hitems other (List.mem_cons_of_mem item hother)
      have htext := ItemsText.more (hitems item List.mem_cons_self) isSpacing_nil isSpacing_nil
        hmore
      rw [printItems_cons_cons]
      exact htext

/-- A key as it is written, with its colon. -/
theorem keyText_printString {key : Text} (hkey : Text.isWhole key.points = true) :
    KeyText (printString charScript key ++ [':']) key := by
  have htext := KeyText.mk (stringText_points hkey) isSpacing_nil isSpacing_nil
  simpa only [printString, glyph_charScript, List.cons_append, List.append_assoc,
    List.nil_append] using htext

theorem printFields_cons (key : Text) (value : Json) (more : Fields) :
    printFields charScript ((key, value) :: more) =
      printString charScript key ++ [':'] ++
        (printWith charScript value ++ printMoreFields charScript more) := by
  simp only [printFields, glyph_charScript, List.append_assoc, List.cons_append, List.nil_append]

theorem printMoreFields_cons (field : Text × Json) (more : Fields) :
    printMoreFields charScript (field :: more) = ',' :: printFields charScript (field :: more) := by
  simp only [printMoreFields, printFields, glyph_charScript, List.cons_append]

theorem fieldsText_printFields {field : Text × Json} {fields : Fields}
    (hkeys : ∀ other ∈ field :: fields, Text.isWhole other.1.points = true)
    (hvalues : ∀ other ∈ field :: fields, ValueText (printWith charScript other.2) other.2) :
    FieldsText (printFields charScript (field :: fields)) (field :: fields) := by
  induction fields generalizing field with
  | nil =>
      rw [printFields_cons, printMoreFields]
      exact .last (keyText_printString (hkeys field List.mem_cons_self))
        (hvalues field List.mem_cons_self) isSpacing_nil
  | cons next more ih =>
      have hmore := ih (fun other hother => hkeys other (List.mem_cons_of_mem field hother))
        fun other hother => hvalues other (List.mem_cons_of_mem field hother)
      have htext := FieldsText.more (keyText_printString (hkeys field List.mem_cons_self))
        (hvalues field List.mem_cons_self) isSpacing_nil isSpacing_nil hmore
      rw [printFields_cons, printMoreFields_cons]
      exact htext

/-- A field with a new key goes behind the others. -/
theorem set_of_not_mem {seen : Fields} {key : Text} (hkey : key ∉ seen.map Prod.fst)
    (value : Json) : Fields.set seen key value = seen ++ [(key, value)] := by
  rw [Fields.set, if_neg]
  simp only [List.any_eq_true, beq_iff_eq, not_exists, not_and]
  intro field hfield heq
  exact hkey (heq ▸ List.mem_map_of_mem hfield)

/-- A key that comes behind others is none of them, when no key comes twice. -/
theorem not_mem_of_nodup_append {seen more : Fields} {field : Text × Json}
    (hdistinct : ((seen ++ field :: more).map Prod.fst).Nodup) :
    field.1 ∉ seen.map Prod.fst := by
  rw [List.map_append, List.map_cons, List.nodup_append] at hdistinct
  exact fun hmem => hdistinct.2.2 field.1 hmem field.1 List.mem_cons_self rfl

/-- Fields with different keys are the fields of their object. -/
theorem fieldsOf_eq {fields : Fields} (hdistinct : (fields.map Prod.fst).Nodup) :
    fieldsOf fields = fields := by
  have hbehind : ∀ more seen : Fields, ((seen ++ more).map Prod.fst).Nodup →
      more.foldl (fun given pair => given.set pair.1 pair.2) seen = seen ++ more := by
    intro more
    induction more with
    | nil => exact fun seen _ => (List.append_nil seen).symm
    | cons field rest ih =>
        intro seen hnodup
        have hset := set_of_not_mem (not_mem_of_nodup_append hnodup) field.2
        have hsplit : seen ++ field :: rest = (seen ++ [field]) ++ rest := by
          rw [List.append_assoc, List.singleton_append]
        rw [hsplit] at hnodup ⊢
        rw [List.foldl_cons, hset]
        exact ih (seen ++ [field]) hnodup
  exact hbehind fields [] hdistinct

/-- What is written for a plain value is its text.  The induction is on the value. -/
theorem valueText_printWith {value : Json} (hplain : Plain value) :
    ValueText (printWith charScript value) value := by
  induction hplain with
  | null => exact .null
  | bool b =>
      cases b
      · exact .bool false
      · exact .bool true
  | @int n hdigits =>
      rw [printWith_int]
      exact .numeral (numeralText_signedDecimal hdigits)
  | str hwhole =>
      rw [printWith, printString]
      exact .str (stringText_points hwhole)
  | @arr items hitems ih =>
      cases items with
      | nil => exact .noItems isSpacing_nil
      | cons item more =>
          have htext := ValueText.arr isSpacing_nil (itemsText_printItems ih)
          rw [printWith]
          exact htext
  | @obj fields hkeys hdistinct hvalues ih =>
      cases fields with
      | nil => exact .noFields isSpacing_nil
      | cons field more =>
          have htext := ValueText.obj isSpacing_nil (fieldsText_printFields hkeys ih)
          rw [fieldsOf_eq hdistinct] at htext
          rw [printWith]
          exact htext

/-- The text of a plain value is read as the value. -/
theorem parse_printWith {value : Json} (hplain : Plain value) :
    parse (printWith charScript value) = .ok value := by
  have htext := IsText.mk isSpacing_nil (valueText_printWith hplain) isSpacing_nil
  rw [List.nil_append, List.append_nil] at htext
  exact parse_text htext

theorem chars_append (front back : List CodePoint) :
    Text.chars (front ++ back) = Text.chars front ++ Text.chars back := List.filterMap_append

theorem chars_glyph_cons (c : Char) (rest : List CodePoint) :
    Text.chars (wireScript.glyph c :: rest) = charScript.glyph c :: Text.chars rest := rfl

theorem chars_escapePoint (point : CodePoint) :
    Text.chars (escapePoint point) = charScript.escape point := by
  cases point with
  | char c => exact Text.chars_glyphs (escape c)
  | lone offset => rfl

theorem chars_printString (s : Text) :
    Text.chars (printString wireScript s) = printString charScript s := by
  have hescape : Text.chars (s.points.flatMap wireScript.escape) =
      s.points.flatMap charScript.escape := by
    induction s.points with
    | nil => rfl
    | cons point rest ih =>
        rw [List.flatMap_cons, List.flatMap_cons, chars_append, ih]
        exact congrArg (· ++ _) (chars_escapePoint point)
  rw [printString, printString, List.cons_append, chars_glyph_cons, chars_append, hescape]
  rfl

mutual

/-- The characters of a text on the wire are the text in characters. -/
theorem chars_printWith (value : Json) :
    Text.chars (printWith wireScript value) = printWith charScript value := by
  cases value with
  | null => rfl
  | bool b => cases b <;> rfl
  | int n => exact (Text.chars_glyphs (Text.signedDecimal n)).trans (List.map_id _).symm
  | float x => exact (Text.chars_glyphs (printFloat x)).trans (List.map_id _).symm
  | str s => exact chars_printString s
  | arr items =>
      cases items with
      | nil => rfl
      | cons item rest =>
          have hitem := chars_printWith item
          have hrest := chars_printMoreItems rest
          simp only [printWith, printItems, chars_glyph_cons, chars_append, hitem, hrest]
  | obj fields =>
      rcases fields with _ | ⟨⟨key, value⟩, rest⟩
      · rfl
      · have hvalue := chars_printWith value
        have hrest := chars_printMoreFields rest
        simp only [printWith, printFields, chars_glyph_cons, chars_append, chars_printString,
          List.append_assoc, List.cons_append, hvalue, hrest]

theorem chars_printMoreItems (items : List Json) :
    Text.chars (printMoreItems wireScript items) = printMoreItems charScript items := by
  cases items with
  | nil => rfl
  | cons item rest =>
      have hitem := chars_printWith item
      have hrest := chars_printMoreItems rest
      simp only [printMoreItems, chars_glyph_cons, chars_append, List.cons_append, hitem, hrest]

theorem chars_printMoreFields (fields : Fields) :
    Text.chars (printMoreFields wireScript fields) = printMoreFields charScript fields := by
  rcases fields with _ | ⟨⟨key, value⟩, rest⟩
  · rfl
  · have hvalue := chars_printWith value
    have hrest := chars_printMoreFields rest
    simp only [printMoreFields, chars_glyph_cons, chars_append, chars_printString,
      List.append_assoc, List.cons_append, hvalue, hrest]

end

end EditorBridge.Json
