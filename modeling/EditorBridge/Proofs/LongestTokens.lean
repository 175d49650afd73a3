/-
The cuts around a cursor are the longest.  Before the cursor the longest end of the text that is a
name is dropped, and behind it the longest beginning that is a name, with or without a point or a
colon in front; where there is none, nothing is dropped.  What the first cut leaves ends with no
name, so that to cut it again changes nothing.
-/
import EditorBridge.Proofs.CursorNames
import Mathlib.Data.List.DropRight
import Mathlib.Data.List.TakeWhile

namespace EditorBridge

/-- What a list in two parts ends with is an end of the second part, or has all of it behind an
end of the first part. -/
theorem suffix_append_cases {α : Type} {front back part : List α} (hpart : part <:+ front ++ back) :
    part <:+ back ∨ ∃ extra, extra ≠ [] ∧ extra <:+ front ∧ part = extra ++ back := by
  rcases List.suffix_or_suffix_of_suffix hpart (List.suffix_append front back) with
    hback | ⟨extra, rfl⟩
  · exact Or.inl hback
  · by_cases hextra : extra = []
    · rw [hextra]
      exact Or.inl (List.suffix_refl back)
    · exact Or.inr ⟨extra, hextra, List.suffix_append_self_iff.mp hpart, rfl⟩

theorem prefix_append_cases {α : Type} {front back part : List α} (hpart : part <+: front ++ back) :
    part <+: front ∨ ∃ extra, extra ≠ [] ∧ extra <+: back ∧ part = front ++ extra := by
  rcases List.prefix_or_prefix_of_prefix hpart (List.prefix_append front back) with
    hfront | ⟨extra, rfl⟩
  · exact Or.inl hfront
  · by_cases hextra : extra = []
    · rw [hextra, List.append_nil]
      exact Or.inl (List.prefix_refl front)
    · exact Or.inr ⟨extra, hextra, List.prefix_self_append_iff.mp hpart, rfl⟩

namespace Cursor

/-- A name, with or without a point or a colon in front. -/
inductive IsGluedToken : List CodePoint → Prop where
  | bare {name : List CodePoint} (hname : IsName name) : IsGluedToken name
  | marked {mark : CodePoint} {name : List CodePoint} (hmark : mark = .char '.' ∨ mark = .char ':')
      (hname : IsName name) : IsGluedToken (mark :: name)

/-- A name that a text ends with. -/
def NameAtEnd (text name : List CodePoint) : Prop := name <:+ text ∧ IsName name

/-- A name that a text starts with, with or without a point or a colon in front. -/
def TokenAtStart (text token : List CodePoint) : Prop := token <+: text ∧ IsGluedToken token

/-- The longest of some texts, or the empty one when there are none. -/
inductive IsLongest (among : List CodePoint → Prop) : List CodePoint → Prop where
  | found {part : List CodePoint} (hpart : among part)
      (hlongest : ∀ other, among other → other.length ≤ part.length) : IsLongest among part
  | missing (hnone : ∀ other, ¬among other) : IsLongest among []

theorem EndsApart.isNameChar_getLast {front part : List CodePoint} (hfront : EndsApart front)
    (hpart : part <:+ front) (hne : part ≠ []) : isNameChar (part.getLast hne) = false := by
  apply hfront
  rw [hpart.getLast hne]
  exact List.getLast?_eq_some_getLast _

theorem StartsApart.isNameChar_head {back part : List CodePoint} (hback : StartsApart back)
    (hpart : part <+: back) (hne : part ≠ []) : isNameChar (part.head hne) = false := by
  apply hback
  rw [hpart.head hne]
  exact List.head?_eq_some_head _

theorem not_isName_nil : ¬IsName [] := by
  rintro ⟨⟨c, hc, -⟩, -⟩
  exact nomatch hc

/-- The start of a name that is not empty is a name. -/
theorem IsName.of_append {name rest : List CodePoint} (hname : IsName (name ++ rest))
    (hne : name ≠ []) : IsName name := by
  have htake := hname.take (List.length_pos_iff.mpr hne)
  rwa [List.take_left] at htake

/-- Every text divides into what ends with no character of a name, and a run of such characters. -/
theorem exists_endsApart_append (text : List CodePoint) :
    ∃ front run, text = front ++ run ∧ EndsApart front ∧ ∀ c ∈ run, isNameChar c = true := by
  refine ⟨text.rdropWhile isNameChar, text.rtakeWhile isNameChar,
    (List.rdropWhile_append_rtakeWhile ..).symm, ?_, fun c => List.mem_rtakeWhile_imp⟩
  intro c hc
  obtain ⟨hne, rfl⟩ := List.mem_getLast?_eq_getLast hc
  exact Bool.eq_false_iff.mpr (List.rdropWhile_last_not isNameChar text hne)

/-- A text whose last run of characters of a name holds only digits ends with no name. -/
theorem not_nameAtEnd_append {front digits name : List CodePoint} (hfront : EndsApart front)
    (hdigits : ∀ c ∈ digits, startsName c = false) : ¬NameAtEnd (front ++ digits) name := by
  rintro ⟨hend, hname⟩
  rcases suffix_append_cases hend with hinside | ⟨extra, hextra, hback, rfl⟩
  · obtain ⟨c, rest, rfl, hc⟩ := hname.exists_eq_cons
    rw [hdigits c (hinside.subset List.mem_cons_self)] at hc
    exact nomatch hc
  -- a longer name would hold the last character of the front
  · have hlast := hname.chars (extra.getLast hextra)
      (List.mem_append_left digits (List.getLast_mem hextra))
    rw [hfront.isNameChar_getLast hback hextra] at hlast
    exact nomatch hlast

/-- What is left of a text ends with no name, and what was dropped is one, if anything was. -/
theorem exists_dropped_name (text : List CodePoint) :
    (∀ name, ¬NameAtEnd (dropNameAtEnd text) name) ∧
      ∃ name, text = dropNameAtEnd text ++ name ∧ (name = [] ∨ IsName name) := by
  obtain ⟨front, run, rfl, hfront, hrun⟩ := exists_endsApart_append text
  rw [dropNameAtEnd_append hfront hrun]
  constructor
  · intro name
    apply not_nameAtEnd_append hfront
    intro c hc
    simpa using List.mem_takeWhile_imp hc
  · refine ⟨run.dropWhile fun c => !startsName c, ?_, ?_⟩
    · rw [List.append_assoc, List.takeWhile_append_dropWhile]
    · rcases hname : run.dropWhile fun c => !startsName c with _ | ⟨c, rest⟩
      · exact Or.inl rfl
      · have hsub : c :: rest ⊆ run := hname ▸ (List.dropWhile_suffix _).subset
        have hc := List.head?_dropWhile_not (fun c => !startsName c) run
        rw [hname] at hc
        refine Or.inr (.of_cons (by simpa using hc) fun d hd => hrun d ?_)
        exact hsub (List.mem_cons_of_mem c hd)

/-- When what is left ends with no name, no longer name could be dropped. -/
theorem isLongest_nameAtEnd {left name : List CodePoint} (hleft : ∀ other, ¬NameAtEnd left other)
    (hname : name = [] ∨ IsName name) : IsLongest (NameAtEnd (left ++ name)) name := by
  rcases hname with rfl | hname
  · rw [List.append_nil]
    exact .missing hleft
  · refine .found ⟨List.suffix_append left name, hname⟩ fun other hother => ?_
    rcases suffix_append_cases hother.1 with hinside | ⟨extra, hextra, hback, rfl⟩
    · exact hinside.length_le
    · exact absurd ⟨hback, hother.2.of_append hextra⟩ (hleft extra)

/-- To cut off the name at the end again changes nothing. -/
theorem dropNameAtEnd_dropNameAtEnd (text : List CodePoint) :
    dropNameAtEnd (dropNameAtEnd text) = dropNameAtEnd text := by
  obtain ⟨hnone, -⟩ := exists_dropped_name text
  obtain ⟨-, name, hsplit, hname⟩ := exists_dropped_name (dropNameAtEnd text)
  rcases hname with rfl | hname
  · rw [← List.append_nil (dropNameAtEnd (dropNameAtEnd text)), ← hsplit]
  · exact absurd ⟨⟨_, hsplit.symm⟩, hname⟩ (hnone name)

/-- What is left behind a name starts with no character of one; without a name nothing is left
out. -/
theorem dropNameAtStart?_cases (text : List CodePoint) :
    (∃ name behind, dropNameAtStart? text = some behind ∧ text = name ++ behind ∧ IsName name ∧
      StartsApart behind) ∨
    dropNameAtStart? text = none ∧ ∀ name, name <+: text → ¬IsName name := by
  rcases text with _ | ⟨c, rest⟩
  · refine Or.inr ⟨rfl, fun name hstart hname => ?_⟩
    rw [List.prefix_nil.mp hstart] at hname
    exact not_isName_nil hname
  · rw [dropNameAtStart?]
    by_cases hc : startsName c = true
    · refine Or.inl ⟨c :: rest.takeWhile isNameChar, rest.dropWhile isNameChar, if_pos hc, ?_,
        .of_cons hc fun d hd => List.mem_takeWhile_imp hd, fun d hd => ?_⟩
      · rw [List.cons_append, List.takeWhile_append_dropWhile]
      · have hhead := List.head?_dropWhile_not isNameChar rest
        rw [Option.mem_def.mp hd] at hhead
        simpa using hhead
    · refine Or.inr ⟨if_neg hc, fun name hstart hname => ?_⟩
      obtain ⟨d, more, rfl, hd⟩ := hname.exists_eq_cons
      rw [(List.cons_prefix_cons.mp hstart).1] at hd
      exact hc hd

theorem not_isName_mark_cons {mark : CodePoint} {rest : List CodePoint}
    (hmark : mark = .char '.' ∨ mark = .char ':') : ¬IsName (mark :: rest) := fun hname =>
  not_mark_of_isNameChar (hname.chars mark List.mem_cons_self) hmark

/-- A cut at the start of a text leaves something: either a token is dropped, and what is left
starts with no character of a name, or the text starts with no token and stays. -/
inductive CutsToken (text : List CodePoint) : List CodePoint → Prop where
  | dropped {token left : List CodePoint} (hsplit : text = token ++ left)
      (htoken : IsGluedToken token)
      (hleft : StartsApart left) : CutsToken text left
  | kept (hnone : ∀ token, ¬TokenAtStart text token) : CutsToken text text

theorem cutsToken_mark_cons {mark : CodePoint} (hmark : mark = .char '.' ∨ mark = .char ':')
    (rest : List CodePoint) :
    CutsToken (mark :: rest) ((dropNameAtStart? rest).getD (mark :: rest)) := by
  rcases dropNameAtStart?_cases rest with ⟨name, behind, hdrop, hrest, hname, hbehind⟩ |
    ⟨hdrop, hnone⟩
  · rw [hdrop, Option.getD_some]
    exact .dropped (by rw [hrest, List.cons_append]) (.marked hmark hname) hbehind
  · rw [hdrop, Option.getD_none]
    refine .kept fun token ⟨hstart, htoken⟩ => ?_
    cases htoken with
    | bare hname =>
        obtain ⟨d, more, rfl, -⟩ := hname.exists_eq_cons
        rw [(List.cons_prefix_cons.mp hstart).1] at hname
        exact not_isName_mark_cons hmark hname
    | marked _ hname => exact hnone _ (List.cons_prefix_cons.mp hstart).2 hname

theorem cutsToken_of_no_mark {text : List CodePoint}
    (hfirst : ∀ c ∈ text.head?, ¬(c = .char '.' ∨ c = .char ':')) :
    CutsToken text ((dropNameAtStart? text).getD text) := by
  rcases dropNameAtStart?_cases text with ⟨name, behind, hdrop, htext, hname, hbehind⟩ |
    ⟨hdrop, hnone⟩
  · rw [hdrop, Option.getD_some]
    exact .dropped htext (.bare hname) hbehind
  · rw [hdrop, Option.getD_none]
    refine .kept fun token ⟨hstart, htoken⟩ => ?_
    cases htoken with
    | bare hname => exact hnone token hstart hname
    | marked hmark _ =>
        obtain ⟨rest, rfl⟩ := hstart
        exact hfirst _ rfl hmark

theorem cutsToken_dropTokenAtStart (text : List CodePoint) :
    CutsToken text (dropTokenAtStart text) := by
  rcases text with _ | ⟨c, rest⟩
  · exact cutsToken_of_no_mark fun c hc => nomatch hc
  · rw [dropTokenAtStart]
    by_cases hc : c = .char '.' ∨ c = .char ':'
    · simp only [Bool.or_eq_true, decide_eq_true_eq, if_pos hc]
      exact cutsToken_mark_cons hc rest
    · simp only [Bool.or_eq_true, decide_eq_true_eq, if_neg hc]
      exact cutsToken_of_no_mark fun d hd => Option.some.inj hd ▸ hc

/-- Behind its first character a token holds only characters of a name. -/
theorem IsGluedToken.exists_eq_cons {token : List CodePoint} (htoken : IsGluedToken token) :
    ∃ c rest, token = c :: rest ∧ ∀ d ∈ rest, isNameChar d = true := by
  cases htoken with
  | bare hname =>
      obtain ⟨c, rest, rfl, -⟩ := hname.exists_eq_cons
      exact ⟨c, rest, rfl, (List.forall_mem_cons.mp hname.chars).2⟩
  | marked _ hname => exact ⟨_, _, rfl, hname.chars⟩

/-- When what is left starts with no character of a name, no longer token could be dropped. -/
theorem isLongest_tokenAtStart {token behind : List CodePoint} (htoken : IsGluedToken token)
    (hbehind : StartsApart behind) : IsLongest (TokenAtStart (token ++ behind)) token := by
  refine .found ⟨List.prefix_append token behind, htoken⟩ fun other hother => ?_
  rcases prefix_append_cases hother.1 with hinside | ⟨extra, hextra, hback, rfl⟩
  · exact hinside.length_le
  · obtain ⟨c, rest, rfl, -⟩ := htoken.exists_eq_cons
    obtain ⟨d, more, hcons, hmore⟩ := hother.2.exists_eq_cons
    obtain ⟨-, rfl⟩ := List.cons.inj hcons
    have hhead := hmore (extra.head hextra) (List.mem_append_right rest (List.head_mem hextra))
    rw [hbehind.isNameChar_head hback hextra] at hhead
    exact nomatch hhead

/-- Offsets behind the end of a text mean its end. -/
theorem split_ofNat (text : List CodePoint) (offset : Nat) :
    split text offset =
      (dropNameAtEnd (text.take offset), dropTokenAtStart (text.drop offset)) := by
  rcases Nat.le_total offset text.length with hoffset | hoffset
  · exact split_natCast hoffset
  · have hclamp : clampOffset text.length offset = text.length := by
      rw [clampOffset, if_neg (by omega), Int.toNat_natCast, Nat.min_eq_right hoffset]
    rw [split, hclamp, List.take_of_length_le hoffset, List.drop_of_length_le hoffset,
      List.take_length, List.drop_length]

/-- At every offset the split drops, of what stands before it, the longest end that is a name, and
of what stands behind it the longest beginning that is a name, with or without a point or a colon
in front; nothing is dropped where there is none.  What is left before the offset stays when it is
split again at its end, whatever follows. -/
theorem split_drops_longest (text : List CodePoint) (offset : Nat) :
    (∃ name, text.take offset = (split text offset).1 ++ name ∧
      IsLongest (NameAtEnd (text.take offset)) name) ∧
    (∃ token, text.drop offset = token ++ (split text offset).2 ∧
      IsLongest (TokenAtStart (text.drop offset)) token) ∧
    ∀ rest, (split ((split text offset).1 ++ rest) (split text offset).1.length).1 =
      (split text offset).1 := by
  rw [split_ofNat]
  refine ⟨?_, ?_, fun rest => ?_⟩
  · obtain ⟨hnone, name, hsplit, hname⟩ := exists_dropped_name (text.take offset)
    refine ⟨name, hsplit, ?_⟩
    have hlongest := isLongest_nameAtEnd hnone hname
    rwa [← hsplit] at hlongest
  · have hcut := cutsToken_dropTokenAtStart (text.drop offset)
    generalize text.drop offset = behind, dropTokenAtStart (text.drop offset) = left at hcut ⊢
    cases hcut with
    | dropped hsplit htoken hleft =>
        exact ⟨_, hsplit, hsplit ▸ isLongest_tokenAtStart htoken hleft⟩
    | kept hnone => exact ⟨[], rfl, .missing hnone⟩
  · rw [split_append]
    exact dropNameAtEnd_dropNameAtEnd (text.take offset)

/-- Digits in front of a name stay, and so does what no name stands behind. -/
example : split (Text.glyphs ['1', 'a', 'é', '2', 'b', '.', ':', 'c']) 5 =
    (Text.glyphs ['1', 'a', 'é', '2'], Text.glyphs ['.', ':', 'c']) := by decide

end Cursor

end EditorBridge
