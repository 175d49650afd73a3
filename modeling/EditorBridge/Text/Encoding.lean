/-
What no encoding can hold.  A text with a lone surrogate is refused at the first one; the report
names its place, or that of all lone surrogates in a row.
-/
import EditorBridge.Text.CodePoint
import EditorBridge.Text.Decimal
import EditorBridge.Text.Hex

namespace EditorBridge.Text

/-- The encodings that texts are put into. -/
inductive Codec where
  | utf8
  | utf16
deriving DecidableEq, Repr

def Codec.name : Codec → String
  | .utf8 => "utf-8"
  | .utf16 => "utf-16-le"

/-- Lone surrogates in their place: the first one stands at `start`, and `more` others that are
refused with it follow. -/
structure EncodeError where
  codec : Codec
  start : Nat
  first : Fin 0x800
  more : Nat
deriving DecidableEq, Repr

def EncodeError.message (e : EncodeError) : String :=
  let place :=
    if e.more = 0 then
      "character '\\u" ++ String.ofList (hexDigits 4 (CodePoint.lone e.first).toNat)
        ++ "' in position " ++ decimalText e.start
    else
      "characters in position " ++ decimalText e.start ++ "-" ++ decimalText (e.start + e.more)
  "'" ++ e.codec.name ++ "' codec can't encode " ++ place ++ ": surrogates not allowed"

/-- How many of the code points behind a lone surrogate are refused with it. -/
def Codec.run (codec : Codec) (rest : List CodePoint) : Nat :=
  match codec with
  | .utf8 => (rest.takeWhile CodePoint.isLone).length
  | .utf16 => 0

/-- Why code points that begin at a place of a text are refused. -/
def refusalFrom? (codec : Codec) (start : Nat) : List CodePoint → Option EncodeError
  | [] => none
  | .char _ :: rest => refusalFrom? codec (start + 1) rest
  | .lone first :: rest => some ⟨codec, start, first, codec.run rest⟩

def refusal? (codec : Codec) (points : List CodePoint) : Option EncodeError :=
  refusalFrom? codec 0 points

/-- Whether no lone surrogate is among some code points. -/
def isWhole (points : List CodePoint) : Bool := points.all fun c => !c.isLone

@[simp] theorem isWhole_glyphs (cs : List Char) : isWhole (glyphs cs) = true := by
  rw [isWhole, glyphs, List.all_map]
  exact List.all_eq_true.mpr fun _ _ => rfl

@[simp] theorem isWhole_ofString (s : String) : isWhole (ofString s).points = true :=
  isWhole_glyphs s.toList

@[simp] theorem isWhole_append (front back : List CodePoint) :
    isWhole (front ++ back) = (isWhole front && isWhole back) := List.all_append

theorem isWhole_of_subset {points others : List CodePoint} (hsubset : points ⊆ others)
    (hwhole : isWhole others = true) : isWhole points = true :=
  List.all_eq_true.mpr fun c hc => List.all_eq_true.mp hwhole c (hsubset hc)

theorem glyphs_chars {points : List CodePoint} (hwhole : isWhole points = true) :
    glyphs (chars points) = points := by
  induction points with
  | nil => rfl
  | cons c rest ih =>
      rw [isWhole, List.all_cons, Bool.and_eq_true] at hwhole
      cases c with
      | lone offset => exact absurd hwhole.1 Bool.false_ne_true
      | char c => exact congrArg (CodePoint.char c :: ·) (ih hwhole.2)

theorem refusalFrom?_eq_none_iff (codec : Codec) (start : Nat) (points : List CodePoint) :
    refusalFrom? codec start points = none ↔ isWhole points = true := by
  fun_induction refusalFrom? codec start points with
  | case1 => exact iff_of_true rfl rfl
  | case2 start c rest ih => exact ih
  | case3 => exact iff_of_false nofun Bool.false_ne_true

/-- A text is refused exactly when it has a lone surrogate. -/
theorem refusal?_eq_none_iff {codec : Codec} {points : List CodePoint} :
    refusal? codec points = none ↔ isWhole points = true := refusalFrom?_eq_none_iff codec 0 points

end EditorBridge.Text
