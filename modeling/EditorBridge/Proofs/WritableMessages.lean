/-
Which messages can be written.  A message is written exactly when all integers in it have few
enough digits and no text in it has a lone surrogate; nothing else keeps one back.
-/
import EditorBridge.Message.Outgoing
import EditorBridge.Proofs.Decimal

namespace EditorBridge

namespace Text

@[simp] theorem isWhole_nil : isWhole [] = true := rfl

@[simp] theorem isWhole_char_cons (c : Char) (points : List CodePoint) :
    isWhole (.char c :: points) = isWhole points := rfl

/-- A lone surrogate by itself, which no message can hold. -/
def lone : Text := ⟨[.lone ⟨0, by decide⟩]⟩

theorem isWhole_flatMap {α : Type} (f : α → List CodePoint) (items : List α) :
    isWhole (items.flatMap f) = items.all fun item => isWhole (f item) := List.all_flatMap

end Text

namespace Json

/-- A value that can be written: its integers have few enough digits, and its texts have no lone
surrogates. -/
inductive Writable : Json → Prop where
  | null : Writable .null
  | bool (b : Bool) : Writable (.bool b)
  | int {n : Int} (hdigits : Text.IsConvertible n.natAbs) : Writable (.int n)
  | float (x : Number.Binary64) : Writable (.float x)
  | str {s : Text} (hwhole : Text.isWhole s.points = true) : Writable (.str s)
  | arr {items : List Json} (hitems : ∀ item ∈ items, Writable item) : Writable (.arr items)
  | obj {fields : Fields} (hkeys : ∀ field ∈ fields, Text.isWhole field.1.points = true)
      (hvalues : ∀ field ∈ fields, Writable field.2) : Writable (.obj fields)

theorem writable_int_iff {n : Int} : Writable (.int n) ↔ Text.IsConvertible n.natAbs := by
  refine ⟨fun hn => ?_, .int⟩
  cases hn with
  | int hdigits => exact hdigits

theorem writable_str_iff {s : Text} : Writable (.str s) ↔ Text.isWhole s.points = true := by
  refine ⟨fun hs => ?_, .str⟩
  cases hs with
  | str hwhole => exact hwhole

theorem not_writable_lone : ¬Writable (.str Text.lone) :=
  fun hlone => nomatch writable_str_iff.mp hlone

theorem writable_arr_iff {items : List Json} :
    Writable (.arr items) ↔ ∀ item ∈ items, Writable item := by
  refine ⟨fun harr => ?_, .arr⟩
  cases harr with
  | arr hitems => exact hitems

theorem writable_obj_iff {fields : Fields} :
    Writable (.obj fields) ↔
      ∀ field ∈ fields, Text.isWhole field.1.points = true ∧ Writable field.2 := by
  constructor
  · intro hobj
    cases hobj with
    | obj hkeys hvalues => exact fun field hfield => ⟨hkeys field hfield, hvalues field hfield⟩
  · intro hfields
    exact .obj (fun field hfield => (hfields field hfield).1)
      fun field hfield => (hfields field hfield).2

theorem isWhole_escapePoint (point : CodePoint) :
    Text.isWhole (escapePoint point) = !point.isLone := by
  cases point with
  | char c => exact Text.isWhole_glyphs (escape c)
  | lone offset => rfl

theorem isWhole_printString (s : Text) :
    Text.isWhole (printString wireScript s) = Text.isWhole s.points := by
  have hescape : Text.isWhole (s.points.flatMap wireScript.escape) = Text.isWhole s.points := by
    rw [Text.isWhole_flatMap]
    exact congrArg s.points.all (funext isWhole_escapePoint)
  rw [printString, wireScript, List.cons_append, Text.isWhole_char_cons, Text.isWhole_append]
  exact (Bool.and_true _).trans hescape

theorem isWhole_printItems (items : List Json) :
    Text.isWhole (printItems wireScript items) =
      Text.isWhole (printMoreItems wireScript items) := by
  cases items with
  | nil => rfl
  | cons item rest => rfl

theorem isWhole_printFields (fields : Fields) :
    Text.isWhole (printFields wireScript fields) =
      Text.isWhole (printMoreFields wireScript fields) := by
  cases fields with
  | nil => rfl
  | cons field rest => rfl

mutual

/-- A value can be written exactly when no integer in it is too long and its text has no lone
surrogate. -/
theorem writable_iff (value : Json) :
    Writable value ↔
      value.isWritable = true ∧ Text.isWhole (printWith wireScript value) = true := by
  cases value with
  | null => exact iff_of_true .null ⟨rfl, rfl⟩
  | bool b => exact iff_of_true (.bool b) ⟨rfl, by cases b <;> rfl⟩
  | int n =>
      have hprint := Text.isWhole_glyphs (Text.signedDecimal n)
      rw [isWritable, decide_eq_true_iff, writable_int_iff]
      exact ⟨fun hn => ⟨hn, hprint⟩, And.left⟩
  | float x => exact iff_of_true (.float x) ⟨rfl, Text.isWhole_glyphs (printFloat x)⟩
  | str s =>
      have hprint := isWhole_printString s
      rw [writable_str_iff]
      exact ⟨fun hs => ⟨rfl, hprint.trans hs⟩, fun hs => hprint.symm.trans hs.2⟩
  | arr items =>
      have hitems := forall_writable_iff items
      have hprint := isWhole_printItems items
      rw [writable_arr_iff, hitems]
      exact and_congr_right fun _ => (congrArg (· = true) hprint).symm.to_iff
  | obj fields =>
      have hfields := forall_field_writable_iff fields
      have hprint := isWhole_printFields fields
      rw [writable_obj_iff, hfields]
      exact and_congr_right fun _ => (congrArg (· = true) hprint).symm.to_iff

theorem forall_writable_iff (items : List Json) :
    (∀ item ∈ items, Writable item) ↔
      allWritable items = true ∧ Text.isWhole (printMoreItems wireScript items) = true := by
  cases items with
  | nil => exact iff_of_true (List.forall_mem_nil _) ⟨rfl, rfl⟩
  | cons item rest =>
      have hprint : Text.isWhole (printMoreItems wireScript (item :: rest)) =
          (Text.isWhole (printWith wireScript item) &&
            Text.isWhole (printMoreItems wireScript rest)) := Text.isWhole_append _ _
      rw [List.forall_mem_cons, writable_iff item, forall_writable_iff rest, hprint, allWritable,
        Bool.and_eq_true, Bool.and_eq_true]
      exact and_and_and_comm

theorem forall_field_writable_iff (fields : Fields) :
    (∀ field ∈ fields, Text.isWhole field.1.points = true ∧ Writable field.2) ↔
      fieldsWritable fields = true ∧ Text.isWhole (printMoreFields wireScript fields) = true := by
  cases fields with
  | nil => exact iff_of_true (List.forall_mem_nil _) ⟨rfl, rfl⟩
  | cons field rest =>
      obtain ⟨key, value⟩ := field
      have hprint : Text.isWhole (printMoreFields wireScript ((key, value) :: rest)) =
          (Text.isWhole key.points && (Text.isWhole (printWith wireScript value) &&
            Text.isWhole (printMoreFields wireScript rest))) := by
        rw [← isWhole_printString key, printMoreFields]
        simp only [wireScript, List.cons_append, List.append_assoc, Text.isWhole_char_cons,
          Text.isWhole_append]
      rw [List.forall_mem_cons, writable_iff value, forall_field_writable_iff rest, hprint,
        fieldsWritable]
      simp only [Bool.and_eq_true]
      constructor
      · rintro ⟨⟨hkey, hwritable, hvalue⟩, hfields, hrest⟩
        exact ⟨⟨hwritable, hfields⟩, hkey, hvalue, hrest⟩
      · rintro ⟨⟨hwritable, hfields⟩, hkey, hvalue, hrest⟩
        exact ⟨⟨hkey, hwritable, hvalue⟩, hfields, hrest⟩

end

instance (value : Json) : Decidable value.Writable := decidable_of_iff _ (writable_iff value).symm

end Json

namespace Text

/-- A number that is not large has few enough digits. -/
theorem isConvertible_of_lt {n : Nat} (hn : n < Number.tenTo 20) : IsConvertible n := by
  have hlarge : 20 ≤ maxNumeralDigits := by decide
  have hbound := tenTo_le hlarge
  unfold Number.tenTo at hn hbound
  exact Nat.lt_of_lt_of_le hn hbound

end Text

namespace Outgoing

/-- A message that can be written. -/
def IsWritable (message : Outgoing) : Prop := Json.Writable (.obj message.fields)

instance (message : Outgoing) : Decidable message.IsWritable :=
  inferInstanceAs (Decidable (Json.Writable _))

theorem writable_version : Text.isWhole version.1.points = true ∧ version.2.Writable :=
  ⟨Text.isWhole_ofString _, .str (Text.isWhole_ofString _)⟩

/-- A response can be written when both what it answers and what it says can be. -/
theorem isWritable_response_iff {id result : Json} :
    (response id result).IsWritable ↔ id.Writable ∧ result.Writable := by
  rw [IsWritable, fields, Json.writable_obj_iff]
  simp [writable_version]

/-- What comes of sending a message. -/
def sending (message : Outgoing) : Except Fault Unit :=
  match message.octets with
  | .error cause => .error (.ofWrite cause)
  | .ok _ => .ok ()

/-- What is sent of a message: the message, if it can be written. -/
def written (message : Outgoing) : List Outgoing :=
  match message.octets with
  | .error _ => []
  | .ok _ => [message]

theorem eq_of_mem_written {message other : Outgoing} (hother : other ∈ message.written) :
    other = message := by
  rw [written] at hother
  split at hother
  · exact absurd hother List.not_mem_nil
  · exact List.mem_singleton.mp hother

theorem length_written_le (message : Outgoing) : message.written.length ≤ 1 := by
  rw [written]
  split
  · exact Nat.zero_le 1
  · exact Nat.le_refl 1

/-- What is written of a message is its body behind a header. -/
theorem octets_of_isWritable {message : Outgoing} (hwritable : message.IsWritable) :
    message.octets = .ok (framed (Text.Utf8.encode (Text.chars message.body))) := by
  obtain ⟨hdigits, hwhole⟩ := (Json.writable_iff _).mp hwritable
  have hrefusal : Text.refusal? .utf8 message.body = none := Text.refusal?_eq_none_iff.mpr hwhole
  rw [octets, bodyOctets, hdigits, Bool.not_true, if_neg Bool.false_ne_true, hrefusal]
  rfl

/-- Only what can be written has octets. -/
theorem isWritable_of_octets {message : Outgoing} {found : List UInt8}
    (hoctets : message.octets = .ok found) : message.IsWritable := by
  refine (Json.writable_iff _).mpr ?_
  rw [octets, bodyOctets] at hoctets
  cases hdigits : (Json.obj message.fields).isWritable with
  | false =>
      rw [hdigits, Bool.not_false, if_pos rfl] at hoctets
      exact nomatch hoctets
  | true =>
      rw [hdigits, Bool.not_true, if_neg Bool.false_ne_true] at hoctets
      cases hrefusal : Text.refusal? .utf8 message.body with
      | some cause =>
          rw [hrefusal] at hoctets
          exact nomatch hoctets
      | none => exact ⟨rfl, Text.refusal?_eq_none_iff.mp hrefusal⟩

/-- A message is sent exactly when it can be written. -/
theorem sending_eq_ok_iff {message : Outgoing} : message.sending = .ok () ↔ message.IsWritable := by
  constructor
  · intro hsending
    cases hoctets : message.octets with
    | error cause =>
        rw [sending, hoctets] at hsending
        exact nomatch hsending
    | ok found => exact isWritable_of_octets hoctets
  · intro hwritable
    rw [sending, octets_of_isWritable hwritable]

theorem written_of_isWritable {message : Outgoing} (hwritable : message.IsWritable) :
    message.written = [message] := by
  rw [written, octets_of_isWritable hwritable]

/-- A message that cannot be written fails with a fault of its own, and nothing is sent of it. -/
theorem exists_sending_eq_error {message : Outgoing} (hwritable : ¬message.IsWritable) :
    ∃ cause, message.sending = .error (.ofWrite cause) ∧ message.written = [] := by
  cases hoctets : message.octets with
  | error cause => exact ⟨cause, by rw [sending, hoctets], by rw [written, hoctets]⟩
  | ok found => exact absurd (isWritable_of_octets hoctets) hwritable

/-- A message is sent, or it cannot be written and fails. -/
theorem sending_cases (message : Outgoing) :
    (message.IsWritable ∧ message.sending = .ok () ∧ message.written = [message]) ∨
      ¬message.IsWritable ∧
        ∃ cause, message.sending = .error (.ofWrite cause) ∧ message.written = [] := by
  by_cases hwritable : message.IsWritable
  · exact Or.inl ⟨hwritable, sending_eq_ok_iff.mpr hwritable, written_of_isWritable hwritable⟩
  · exact Or.inr ⟨hwritable, exists_sending_eq_error hwritable⟩

end Outgoing

end EditorBridge
