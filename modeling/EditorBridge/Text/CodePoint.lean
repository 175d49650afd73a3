/-
Texts.  A text is a row of code points: characters, and surrogates that belong to no pair.  Such
a lone surrogate may stand in a text, though no encoding has octets for it.
-/

namespace EditorBridge

/-- A code point: a character, or a lone surrogate, counted from the first one there is. -/
inductive CodePoint where
  | char (c : Char)
  | lone (offset : Fin 0x800)
deriving DecidableEq, Repr

namespace CodePoint

instance : Coe Char CodePoint := ⟨.char⟩

instance : Inhabited CodePoint := ⟨.char default⟩

def toNat : CodePoint → Nat
  | .char c => c.toNat
  | .lone offset => 0xd800 + offset.val

/-- The character, when there is one. -/
def char? : CodePoint → Option Char
  | .char c => some c
  | .lone _ => none

def isLone : CodePoint → Bool
  | .char _ => false
  | .lone _ => true

/-- Whether it is a character of a class; a lone surrogate is in none. -/
def isIn (p : Char → Bool) : CodePoint → Bool
  | .char c => p c
  | .lone _ => false

@[simp] theorem isIn_char (p : Char → Bool) (c : Char) : (CodePoint.char c).isIn p = p c := rfl

end CodePoint

/-- A row of code points. -/
@[ext] structure Text where
  points : List CodePoint
deriving DecidableEq, Repr, Inhabited

namespace Text

/-- The code points of some characters. -/
def glyphs (cs : List Char) : List CodePoint := cs.map .char

/-- The characters among some code points. -/
def chars (points : List CodePoint) : List Char := points.filterMap CodePoint.char?

def ofChars (cs : List Char) : Text := ⟨glyphs cs⟩

def ofString (s : String) : Text := ofChars s.toList

instance : Coe String Text := ⟨ofString⟩

instance : Append Text := ⟨fun front back => ⟨front.points ++ back.points⟩⟩

def isEmpty (text : Text) : Bool := text.points.isEmpty

/-- The characters of a text, when it has no lone surrogate. -/
def chars? (text : Text) : Option (List Char) := text.points.mapM CodePoint.char?

/-- The text as a string, when it has no lone surrogate. -/
def string? (text : Text) : Option String := text.chars?.map String.ofList

/-- Texts one behind the other, with a mark between them. -/
def join (mark : Text) (texts : List Text) : Text :=
  ⟨mark.points.intercalate (texts.map Text.points)⟩

/-- The order of the first code points that differ. -/
protected def le (a b : Text) : Bool :=
  !(b.points.map CodePoint.toNat).lex (a.points.map CodePoint.toNat) Nat.blt

@[simp] theorem points_append (front back : Text) :
    (front ++ back).points = front.points ++ back.points := rfl

theorem empty_append (text : Text) : "" ++ text = text := rfl

theorem append_empty (text : Text) : text ++ "" = text := by
  ext1
  exact List.append_nil text.points

theorem append_assoc (front middle back : Text) :
    front ++ middle ++ back = front ++ (middle ++ back) := by
  ext1
  exact List.append_assoc _ _ _

@[simp] theorem chars_glyphs (cs : List Char) : chars (glyphs cs) = cs := by
  rw [chars, glyphs, List.filterMap_map]
  exact List.filterMap_some

theorem glyphs_injective {cs ds : List Char} (h : glyphs cs = glyphs ds) : cs = ds := by
  rw [← chars_glyphs cs, h, chars_glyphs]

theorem ofString_injective {s t : String} (h : ofString s = ofString t) : s = t :=
  String.toList_injective (glyphs_injective (congrArg points h))

@[simp] theorem ofString_inj {s t : String} : ofString s = ofString t ↔ s = t :=
  ⟨ofString_injective, congrArg ofString⟩

theorem isDigit_iff (c : Char) : c.isDigit = true ↔ 48 ≤ c.toNat ∧ c.toNat ≤ 57 := by
  show (decide (48 ≤ c.val) && decide (c.val ≤ 57)) = true ↔ _
  simp only [Bool.and_eq_true, decide_eq_true_eq, UInt32.le_iff_toNat_le, UInt32.reduceToNat,
    Char.toNat_val]

theorem isLower_iff (c : Char) : c.isLower = true ↔ 97 ≤ c.toNat ∧ c.toNat ≤ 122 := by
  show (decide (97 ≤ c.val) && decide (c.val ≤ 122)) = true ↔ _
  simp only [Bool.and_eq_true, decide_eq_true_eq, UInt32.le_iff_toNat_le, UInt32.reduceToNat,
    Char.toNat_val]

theorem isAlpha_iff (c : Char) : c.isAlpha = true ↔
    65 ≤ c.toNat ∧ c.toNat ≤ 90 ∨ 97 ≤ c.toNat ∧ c.toNat ≤ 122 := by
  show (decide (65 ≤ c.val ∧ c.val ≤ 90) || c.isLower) = true ↔ _
  simp only [Bool.or_eq_true, isLower_iff, decide_eq_true_eq, UInt32.le_iff_toNat_le,
    UInt32.reduceToNat, Char.toNat_val]

end Text

end EditorBridge
