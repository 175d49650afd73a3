/-
Names around a cursor.  A name that ends at the cursor is dropped from what stands before it,
and one that starts there from what stands behind it.  Inside a name the two cuts meet, unless
the next character is a digit: no name starts with one, and so the rest of the name stays.
-/
import EditorBridge.Cursor
import EditorBridge.Proofs.Decimal
import EditorBridge.Proofs.PositionInverse

namespace EditorBridge

namespace Cursor

/-- A name: a character that one may start with, and characters that it may hold. -/
structure IsName (cs : List CodePoint) : Prop where
  first : ∃ c ∈ cs.head?, startsName c = true
  chars : ∀ c ∈ cs, isNameChar c = true

/-- The text ends with no character of a name. -/
def EndsApart (cs : List CodePoint) : Prop := ∀ c ∈ cs.getLast?, isNameChar c = false

/-- The text starts with no character of a name. -/
def StartsApart (cs : List CodePoint) : Prop := ∀ c ∈ cs.head?, isNameChar c = false

theorem isName_iff (cs : List CodePoint) :
    IsName cs ↔ (cs.head?.any startsName && cs.all isNameChar) = true := by
  rw [Bool.and_eq_true, Option.any_eq_true, List.all_eq_true]
  exact ⟨fun hname => ⟨hname.first, hname.chars⟩, fun ⟨hfirst, hchars⟩ => ⟨hfirst, hchars⟩⟩

instance (cs : List CodePoint) : Decidable (IsName cs) := decidable_of_iff _ (isName_iff cs).symm

theorem all_not_isNameChar_iff (found : Option CodePoint) :
    (found.all fun c => !isNameChar c) = true ↔ ∀ c ∈ found, isNameChar c = false := by
  cases found with
  | none => simp
  | some c => simp

instance (cs : List CodePoint) : Decidable (EndsApart cs) :=
  decidable_of_iff _ (all_not_isNameChar_iff cs.getLast?)

instance (cs : List CodePoint) : Decidable (StartsApart cs) :=
  decidable_of_iff _ (all_not_isNameChar_iff cs.head?)

/-- What stands between two offsets of a text is a whole name: no character next to it could
belong to it. -/
structure IsToken (text : List CodePoint) (start stop : Nat) : Prop where
  stop_le : stop ≤ text.length
  isName : IsName ((text.take stop).drop start)
  before : EndsApart (text.take start)
  behind : StartsApart (text.drop stop)

theorem isNameChar_of_startsName {c : CodePoint} (hc : startsName c = true) :
    isNameChar c = true := by
  rw [isNameChar, hc, Bool.true_or]

/-- Of the characters of a name the digits are those that it cannot start with. -/
theorem startsName_eq_not_isDigit {c : CodePoint} (hc : isNameChar c = true) :
    startsName c = !c.isIn Char.isDigit := by
  cases hdigit : c.isIn Char.isDigit with
  | false =>
      rw [isNameChar, hdigit, Bool.or_false] at hc
      rw [hc, Bool.not_false]
  | true =>
      rw [Bool.not_true, Bool.eq_false_iff]
      intro hstarts
      cases c with
      | lone offset => exact nomatch hstarts
      | char c =>
          simp only [CodePoint.isIn_char, startsName, Bool.or_eq_true, beq_iff_eq,
            Text.isDigit_iff, Text.isAlpha_iff] at hdigit hstarts
          rcases hstarts with (hupper | hlower) | rfl
          · omega
          · omega
          · exact absurd hdigit (by decide)

namespace IsName

variable {cs : List CodePoint}

theorem exists_eq_cons (hname : IsName cs) : ∃ c rest, cs = c :: rest ∧ startsName c = true := by
  obtain ⟨c, hc, hstarts⟩ := hname.first
  obtain ⟨rest, hcs⟩ := List.head?_eq_some_iff.mp hc
  exact ⟨c, rest, hcs, hstarts⟩

theorem of_cons {c : CodePoint} {rest : List CodePoint} (hc : startsName c = true)
    (hrest : ∀ d ∈ rest, isNameChar d = true) : IsName (c :: rest) :=
  ⟨⟨c, rfl, hc⟩, List.forall_mem_cons.mpr ⟨isNameChar_of_startsName hc, hrest⟩⟩

/-- The start of a name is a name. -/
theorem take (hname : IsName cs) {n : Nat} (hn : 0 < n) : IsName (cs.take n) := by
  obtain ⟨c, rest, rfl, hc⟩ := hname.exists_eq_cons
  obtain ⟨n, rfl⟩ := Nat.exists_eq_succ_of_ne_zero (Nat.ne_of_gt hn)
  rw [Nat.succ_eq_add_one, List.take_succ_cons]
  exact of_cons hc fun d hd => hname.chars d (List.mem_cons_of_mem c (List.mem_of_mem_take hd))

end IsName

/-- The run of name characters at the end of a text. -/
theorem reverse_takeWhile_reverse {front run : List CodePoint} (hfront : EndsApart front)
    (hrun : ∀ c ∈ run, isNameChar c = true) :
    ((front ++ run).reverse.takeWhile isNameChar).reverse = run := by
  have hstop : front.reverse.takeWhile isNameChar = [] := by
    cases hlast : front.reverse with
    | nil => rfl
    | cons c rest =>
        have hc : c ∈ front.getLast? := by
          rw [← List.head?_reverse, hlast]
          rfl
        exact List.takeWhile_cons_of_neg (Bool.not_eq_true _ ▸ hfront c hc)
  rw [List.reverse_append, List.takeWhile_append_of_pos, hstop]
  · simp
  · simpa using hrun

/-- From a run of name characters at the end, a name is dropped with all that follows its first
character; the digits in front of it stay. -/
theorem dropNameAtEnd_append {front run : List CodePoint} (hfront : EndsApart front)
    (hrun : ∀ c ∈ run, isNameChar c = true) :
    dropNameAtEnd (front ++ run) = front ++ run.takeWhile fun c => !startsName c := by
  have hsize : (front ++ run).length - run.length = front.length := by simp
  rw [dropNameAtEnd]
  simp only [reverse_takeWhile_reverse hfront hrun, hsize, List.take_left]

theorem dropNameAtEnd_of_endsApart {front : List CodePoint} (hfront : EndsApart front) :
    dropNameAtEnd front = front := by
  have hdrop := dropNameAtEnd_append hfront (List.forall_mem_nil _)
  simpa using hdrop

theorem dropNameAtEnd_append_name {front name : List CodePoint} (hfront : EndsApart front)
    (hname : IsName name) : dropNameAtEnd (front ++ name) = front := by
  obtain ⟨c, rest, rfl, hc⟩ := hname.exists_eq_cons
  rw [dropNameAtEnd_append hfront hname.chars, List.takeWhile_cons_of_neg (by simp [hc]),
    List.append_nil]

theorem not_mark_of_isNameChar {c : CodePoint} (hc : isNameChar c = true) :
    ¬(c = .char '.' ∨ c = .char ':') := by
  rintro (rfl | rfl)
  · exact absurd hc (by decide)
  · exact absurd hc (by decide)

theorem dropTokenAtStart_name_append {name rest : List CodePoint} (hname : IsName name)
    (hrest : StartsApart rest) : dropTokenAtStart (name ++ rest) = rest := by
  obtain ⟨c, more, rfl, hc⟩ := hname.exists_eq_cons
  obtain ⟨hchar, hmore⟩ := List.forall_mem_cons.mp hname.chars
  rw [List.cons_append, dropTokenAtStart]
  simp only [Bool.or_eq_true, decide_eq_true_eq, if_neg (not_mark_of_isNameChar hchar)]
  rw [dropNameAtStart?, if_pos hc, Option.getD_some, List.dropWhile_append_of_pos hmore,
    Text.dropWhile_of_head hrest]

/-- A text that starts with a digit loses nothing. -/
theorem dropTokenAtStart_of_isDigit {c : CodePoint} {rest : List CodePoint}
    (hc : isNameChar c = true)
    (hdigit : c.isIn Char.isDigit = true) : dropTokenAtStart (c :: rest) = c :: rest := by
  have hstarts : startsName c = false := by rw [startsName_eq_not_isDigit hc, hdigit, Bool.not_true]
  rw [dropTokenAtStart]
  simp only [Bool.or_eq_true, decide_eq_true_eq, if_neg (not_mark_of_isNameChar hc)]
  rw [dropNameAtStart?, hstarts, if_neg Bool.false_ne_true, Option.getD_none]

theorem clampOffset_natCast {size n : Nat} (hn : n ≤ size) : clampOffset size n = n := by
  rw [clampOffset, if_neg (by omega), Int.toNat_natCast, Nat.min_eq_left hn]

theorem split_natCast {text : List CodePoint} {n : Nat} (hn : n ≤ text.length) :
    split text n = (dropNameAtEnd (text.take n), dropTokenAtStart (text.drop n)) := by
  rw [split, clampOffset_natCast hn]

/-- The rest of a name is dropped, unless a digit comes first. -/
theorem dropTokenAtStart_rest_append {name rest : List CodePoint} {c : CodePoint}
    (hc : isNameChar c = true) (hname : ∀ d ∈ name, isNameChar d = true)
    (hrest : StartsApart rest) :
    dropTokenAtStart (c :: name ++ rest) =
      if c.isIn Char.isDigit then c :: name ++ rest else rest := by
  cases hdigit : c.isIn Char.isDigit with
  | true =>
      rw [if_pos rfl, List.cons_append]
      exact dropTokenAtStart_of_isDigit hc hdigit
  | false =>
      have hstarts : startsName c = true := by
        rw [startsName_eq_not_isDigit hc, hdigit, Bool.not_false]
      rw [if_neg Bool.false_ne_true]
      exact dropTokenAtStart_name_append (.of_cons hstarts hname) hrest

/-- Between two parts of a text, the cut behind the cursor does not depend on the one before. -/
theorem split_append (before behind : List CodePoint) :
    split (before ++ behind) before.length = (dropNameAtEnd before, dropTokenAtStart behind) := by
  rw [split_natCast (by rw [List.length_append]; omega), List.take_left, List.drop_left]

/-- Behind a name the cuts are those of the place where the name is missing. -/
theorem split_behind_name {before name : List CodePoint} (hbefore : EndsApart before)
    (hname : IsName name) (behind : List CodePoint) :
    split (before ++ name ++ behind) (before.length + name.length : Nat) =
      split (before ++ behind) before.length := by
  rw [← List.length_append, split_append, split_append, dropNameAtEnd_append_name hbefore hname,
    dropNameAtEnd_of_endsApart hbefore]

/-- A place inside a token divides the name: one part of it stands before the place, and behind
it the rest, from its first character on. -/
theorem IsToken.exists_parts {text : List CodePoint} {start stop offset : Nat}
    (htoken : IsToken text start stop) (hstart : start < offset) (hstop : offset < stop) :
    ∃ part c more, part ≠ [] ∧ IsName (part ++ c :: more) ∧
      text.take offset = text.take start ++ part ∧
      text.drop offset = c :: more ++ text.drop stop := by
  have hsize := htoken.stop_le
  have hrest : text.drop offset = (text.take stop).drop offset ++ text.drop stop := by
    rw [← List.drop_append_of_le_length (by rw [List.length_take]; omega), List.take_append_drop]
  have hname : (text.take stop).drop start =
      (text.take offset).drop start ++ (text.take stop).drop offset := by
    rw [← List.drop_append_of_le_length (by rw [List.length_take]; omega),
      Text.take_append_drop_take (Nat.le_of_lt hstop)]
  obtain ⟨c, more, hcons⟩ : ∃ c more, (text.take stop).drop offset = c :: more := by
    apply List.exists_cons_of_length_pos
    rw [List.length_drop, List.length_take]
    omega
  refine ⟨(text.take offset).drop start, c, more, ?_, ?_, ?_, ?_⟩
  · rw [← List.length_pos_iff, List.length_drop, List.length_take]
    omega
  · rw [← hcons, ← hname]
    exact htoken.isName
  · exact (Text.take_append_drop_take (Nat.le_of_lt hstart) text).symm
  · rw [hrest, hcons]

/-- Inside a token the name is dropped on both sides, but behind the cursor it stays when a
digit comes first. -/
theorem split_of_isToken {text : List CodePoint} {start stop offset : Nat}
    (htoken : IsToken text start stop) (hstart : start < offset) (hstop : offset < stop) :
    split text offset =
      (text.take start,
        if (text[offset]?).any (·.isIn Char.isDigit) then text.drop offset
        else text.drop stop) := by
  obtain ⟨part, c, more, hpart, hname, hleft, hright⟩ := htoken.exists_parts hstart hstop
  have hoffset : offset ≤ text.length := by
    have hsize := htoken.stop_le
    omega
  have hbehind : text[offset]? = some c := by
    rw [← List.head?_drop, hright]
    rfl
  have hprefix : IsName part := by
    have htake := hname.take (List.length_pos_iff.mpr hpart)
    rwa [List.take_left] at htake
  obtain ⟨-, hrest⟩ := List.forall_mem_append.mp hname.chars
  obtain ⟨hc, hmore⟩ := List.forall_mem_cons.mp hrest
  rw [split_natCast hoffset, hleft, hright, hbehind, Option.any_some,
    dropNameAtEnd_append_name htoken.before hprefix,
    dropTokenAtStart_rest_append hc hmore htoken.behind]

end Cursor

end EditorBridge
