/-
What a hover text means.  A method call is described by what it calls, and the text of an
attribute is that of the one at which its calls end; calls that go round for ever say
nothing.  The attributes that a search notes on its way only keep it from going round: they
take nothing from the text, whatever circles the types, symbols and nodes form.
-/
import EditorBridge.Hover
import Mathlib.Logic.Relation

namespace EditorBridge

namespace Graph

variable {g : Graph} {ref callee last : AttrRef} {header : Bool} {depth : Int}
  {seen : List AttrRef} {text : Text}

/-- An attribute is a method call, and the other one is what it calls. -/
def Calls (g : Graph) (ref callee : AttrRef) : Prop :=
  g.category (g.attr ref) = .methodCall ∧
    ∃ id, (g.attr ref).callee = some id ∧ callee = .symbol id

/-- The calls of an attribute lead to another one that calls nothing. -/
def EndsAt (g : Graph) (ref last : AttrRef) : Prop :=
  Relation.ReflTransGen g.Calls ref last ∧ g.category (g.attr last) ≠ .methodCall

/-- What an attribute that calls nothing says, the declaration of its type left out. -/
def ownText (g : Graph) (header : Bool) (ref : AttrRef) : Text :=
  match (g.attr ref).type with
  | none => ""
  | some type =>
      match g.category (g.attr ref) with
      | .type => g.typeSummary header ((g.attr ref).value.getD type)
      | .function => g.functionSummary header type (g.attr ref)
      | .pointer => g.pointerSummary type
      | .value => if header then heading "value" (g.typeText type) else ""
      | .methodCall => ""
      | .unresolved => ""

/-- The node that declares the type of a value. -/
def valueDeclaration? (g : Graph) (ref : AttrRef) : Option NodeId :=
  if g.category (g.attr ref) = .value then (g.attr ref).type.bind g.declaration? else none

/-- A text on a line of its own, unless it is empty. -/
def onNewLine (text : Text) : Text := if text = "" then "" else "\n" ++ text

/-- What an attribute says by itself: that which its calls end at speaks for it. -/
inductive Says (g : Graph) (header : Bool) (ref : AttrRef) : Text → Prop where
  | ended {last : AttrRef} (hlast : g.EndsAt ref last) : Says g header ref (g.ownText header last)
  | endless (hnone : ∀ last, ¬g.EndsAt ref last) : Says g header ref ""

/-- What a hover over an attribute says: that which its calls end at speaks for it, and a
value is followed by what the declaration of its type says by itself. -/
inductive Means (g : Graph) (ref : AttrRef) : Text → Prop where
  | plain {last : AttrRef} (hlast : g.EndsAt ref last) (hplain : g.valueDeclaration? last = none) :
      Means g ref (g.ownText true last)
  | declared {last : AttrRef} {node : NodeId} {text : Text} (hlast : g.EndsAt ref last)
      (hnode : g.valueDeclaration? last = some node) (htext : g.Says false (g.attrRef node) text) :
      Means g ref (g.ownText true last ++ onNewLine text)
  | endless (hnone : ∀ last, ¬g.EndsAt ref last) : Means g ref ""

theorem Calls.eq {other : AttrRef} (hcallee : g.Calls ref callee) (hother : g.Calls ref other) :
    callee = other := by
  obtain ⟨-, id, hid, rfl⟩ := hcallee
  obtain ⟨-, given, hgiven, rfl⟩ := hother
  rw [Option.some.inj (hid.symm.trans hgiven)]

/-- Every method call calls something. -/
theorem exists_calls (hcall : g.category (g.attr ref) = .methodCall) :
    ∃ callee, g.Calls ref callee := by
  have hsome : (g.attr ref).callee.isSome = true := by
    unfold category at hcall
    grind
  obtain ⟨id, hid⟩ := Option.isSome_iff_exists.mp hsome
  exact ⟨.symbol id, hcall, id, hid, rfl⟩

theorem endsAt_self (hlast : g.category (g.attr ref) ≠ .methodCall) : g.EndsAt ref ref :=
  ⟨.refl, hlast⟩

/-- Calls end where those of what is called end. -/
theorem endsAt_iff_of_calls (hcallee : g.Calls ref callee) :
    g.EndsAt ref last ↔ g.EndsAt callee last := by
  constructor
  · rintro ⟨hpath, hlast⟩
    rcases hpath.cases_head with rfl | ⟨next, hnext, hrest⟩
    · exact absurd hcallee.1 hlast
    · rw [hcallee.eq hnext]
      exact ⟨hrest, hlast⟩
  · rintro ⟨hpath, hlast⟩
    exact ⟨.head hcallee hpath, hlast⟩

theorem endsAt_iff_of_path (hpath : Relation.ReflTransGen g.Calls ref callee) :
    g.EndsAt ref last ↔ g.EndsAt callee last := by
  induction hpath with
  | refl => exact Iff.rfl
  | tail _ hstep ih => exact ih.trans (endsAt_iff_of_calls hstep)

theorem EndsAt.unique {other : AttrRef} (hlast : g.EndsAt ref last)
    (hother : g.EndsAt ref other) : last = other := by
  obtain ⟨hpath, hend⟩ := (endsAt_iff_of_path hlast.1).mp hother
  rcases hpath.cases_head with rfl | ⟨next, hnext, -⟩
  · rfl
  · exact absurd hnext.1 hlast.2

/-- Calls that come round to where they began never end. -/
theorem not_endsAt_of_circle (hcircle : Relation.TransGen g.Calls ref ref) :
    ¬g.EndsAt ref last := by
  rintro ⟨hpath, hlast⟩
  induction hpath using Relation.ReflTransGen.head_induction_on with
  | refl =>
      obtain ⟨next, hnext, -⟩ := Relation.TransGen.head'_iff.mp hcircle
      exact hlast hnext.1
  | head hstep _ ih =>
      obtain ⟨next, hnext, hrest⟩ := Relation.TransGen.head'_iff.mp hcircle
      rw [← hstep.eq hnext] at hrest
      exact ih (.tail' hrest hstep)

/-- What is said depends only on where the calls end. -/
theorem Says.congr {other : AttrRef} (hsame : ∀ last, g.EndsAt ref last ↔ g.EndsAt other last)
    (htext : g.Says header ref text) : g.Says header other text := by
  cases htext with
  | ended hlast => exact .ended ((hsame _).mp hlast)
  | endless hnone => exact .endless fun last hlast => hnone last ((hsame last).mpr hlast)

theorem Means.congr {other : AttrRef} (hsame : ∀ last, g.EndsAt ref last ↔ g.EndsAt other last)
    (htext : g.Means ref text) : g.Means other text := by
  cases htext with
  | plain hlast hplain => exact .plain ((hsame _).mp hlast) hplain
  | declared hlast hnode hinner => exact .declared ((hsame _).mp hlast) hnode hinner
  | endless hnone => exact .endless fun last hlast => hnone last ((hsame last).mpr hlast)

theorem Says.unique {other : Text} (htext : g.Says header ref text)
    (hother : g.Says header ref other) : text = other := by
  cases htext with
  | ended hlast =>
      cases hother with
      | ended hend => rw [hlast.unique hend]
      | endless hnone => exact absurd hlast (hnone _)
  | endless hnone =>
      cases hother with
      | ended hend => exact absurd hend (hnone _)
      | endless => rfl

theorem Means.unique {other : Text} (htext : g.Means ref text) (hother : g.Means ref other) :
    text = other := by
  cases htext with
  | plain hlast hplain =>
      cases hother with
      | plain hend => rw [hlast.unique hend]
      | declared hend hnode => rw [hlast.unique hend, hnode] at hplain; exact nomatch hplain
      | endless hnone => exact absurd hlast (hnone _)
  | declared hlast hnode hinner =>
      cases hother with
      | plain hend hplain => rw [← hlast.unique hend, hnode] at hplain; exact nomatch hplain
      | declared hend hgiven hsaid =>
          obtain rfl := hlast.unique hend
          obtain rfl := Option.some.inj (hnode.symm.trans hgiven)
          rw [hinner.unique hsaid]
      | endless hnone => exact absurd hlast (hnone _)
  | endless hnone =>
      cases hother with
      | plain hend => exact absurd hend (hnone _)
      | declared hend => exact absurd hend (hnone _)
      | endless => rfl

theorem exists_type (hcategory : g.category (g.attr ref) ≠ .unresolved) :
    ∃ type, (g.attr ref).type = some type := by
  rcases htype : (g.attr ref).type with _ | type
  · rw [category, htype] at hcategory
    exact absurd rfl hcategory
  · exact ⟨type, rfl⟩

/-- A method call is described by what it calls, unless this was passed on the way. -/
theorem summary_of_calls {id : SymbolId} (hcallee : g.Calls ref (.symbol id)) :
    g.summary ref header depth seen =
      if seen.contains (.symbol id) then ("" : Text)
      else g.summary (.symbol id) header depth (ref :: seen) := by
  obtain ⟨hcall, given, hgiven, hid⟩ := hcallee
  obtain rfl := AttrRef.symbol.inj hid
  obtain ⟨type, htype⟩ := exists_type (by rw [hcall]; exact fun h => nomatch h)
  rw [summary, htype, hcall]
  dsimp only
  split
  next hnone => cases hgiven.symm.trans hnone
  next other hother =>
      obtain rfl := Option.some.inj (hgiven.symm.trans hother)
      by_cases hseen : seen.contains (AttrRef.symbol id) = true
      · rw [dif_pos hseen, if_pos hseen]
      · rw [dif_neg hseen, if_neg hseen]

/-- What calls nothing says no more than its own text, when it is no value of a declared type
or no further declaration is to be shown. -/
theorem summary_of_plain (hlast : g.category (g.attr ref) ≠ .methodCall)
    (hplain : g.valueDeclaration? ref = none ∨ maxDepth ≤ depth) :
    g.summary ref header depth seen = g.ownText header ref := by
  rcases htype : (g.attr ref).type with _ | type
  · rw [summary, ownText, htype]
  · rw [summary, ownText, htype]
    cases hcategory : g.category (g.attr ref) with
    | methodCall => exact absurd hcategory hlast
    | value =>
        rw [valueDeclaration?, if_pos hcategory, htype, Option.bind_some] at hplain
        dsimp only
        split
        next hdepth => rw [hplain.resolve_right (Int.not_le.mpr hdepth)]
        next => rfl
    | _ => rfl

/-- A value is followed by what the declaration of its type says. -/
theorem summary_of_declared {node : NodeId} (hnode : g.valueDeclaration? ref = some node)
    (hdepth : depth < maxDepth) :
    g.summary ref header depth seen = g.ownText header ref ++
      onNewLine (g.summary (g.attrRef node) false (depth + 1) (ref :: seen)) := by
  rw [valueDeclaration?] at hnode
  split at hnode
  next hvalue =>
      obtain ⟨type, htype, hdeclaration⟩ := Option.bind_eq_some_iff.mp hnode
      rw [summary, ownText, htype, hvalue]
      dsimp only
      rw [dif_pos hdepth, hdeclaration, onNewLine]
      dsimp only
      split
      next => rw [Text.append_empty]
      next => rw [Text.append_assoc]
  next => exact nomatch hnode

/-- To prove something of an attribute and those passed before it, suppose it of what the
attribute calls, if that was not passed yet. -/
theorem passing_induction (g : Graph) {motive : AttrRef → List AttrRef → Prop}
    (hstep : ∀ ref seen, (∀ id, g.Calls ref (.symbol id) → seen.contains (.symbol id) = false →
      motive (.symbol id) (ref :: seen)) → motive ref seen) (ref : AttrRef)
    (seen : List AttrRef) : motive ref seen := by
  induction hbudget : g.callBudget ref seen using Nat.strongRecOn generalizing ref seen with
  | _ budget ih =>
      refine hstep ref seen fun id hcallee hseen => ?_
      obtain ⟨-, given, hgiven, hid⟩ := hcallee
      obtain rfl := AttrRef.symbol.inj hid
      exact ih _ (hbudget ▸ g.callBudget_lt hgiven hseen) _ _ rfl

/-- Deep down nothing is shown but what an attribute says by itself.  Of those passed on the way
each leads to the attribute by calls, so that meeting it again closes a circle, or has nothing
to say. -/
theorem says_summary (hdepth : maxDepth ≤ depth) :
    (∀ passed ∈ seen, Relation.TransGen g.Calls passed ref ∨ g.Says header passed "") →
      g.Says header ref (g.summary ref header depth seen) := by
  induction ref, seen using g.passing_induction with
  | _ ref seen ih =>
      intro hseen
      by_cases hcall : g.category (g.attr ref) = .methodCall
      · obtain ⟨callee, hcallee⟩ := exists_calls hcall
        obtain ⟨-, id, -, rfl⟩ := id hcallee
        rw [summary_of_calls hcallee]
        by_cases hpassed : seen.contains (.symbol id) = true
        · rw [if_pos hpassed]
          rcases hseen _ (List.contains_iff_mem.mp hpassed) with hpath | hsilent
          · have hcircle := Relation.TransGen.head hcallee hpath
            exact .endless fun last => not_endsAt_of_circle hcircle
          · exact hsilent.congr fun last => (endsAt_iff_of_calls hcallee).symm
        · rw [if_neg hpassed]
          refine (ih id hcallee (by simpa using hpassed) ?_).congr fun last =>
            (endsAt_iff_of_calls hcallee).symm
          intro passed hmem
          rcases List.mem_cons.mp hmem with rfl | hmem
          · exact Or.inl (.single hcallee)
          · exact (hseen passed hmem).imp_left fun hpath => hpath.tail hcallee
      · rw [summary_of_plain hcall (Or.inr hdepth)]
        exact .ended (endsAt_self hcall)

/-- Without its heading a value has nothing to say, nor has what leads to it by calls. -/
theorem says_nothing_of_value {node : NodeId} (hpath : Relation.ReflTransGen g.Calls callee ref)
    (hnode : g.valueDeclaration? ref = some node) : g.Says false callee "" := by
  rw [valueDeclaration?] at hnode
  split at hnode
  next hvalue =>
      obtain ⟨type, htype, -⟩ := Option.bind_eq_some_iff.mp hnode
      have hown : g.ownText false ref = "" := by
        rw [ownText, htype, hvalue]
        rfl
      have hlast : g.category (g.attr ref) ≠ .methodCall := by
        rw [hvalue]
        exact fun h => nomatch h
      rw [← hown]
      exact .ended ⟨hpath, hlast⟩
  next => exact nomatch hnode

/-- Those passed on the way lead to the attribute by calls. -/
theorem means_summary :
    (∀ passed ∈ seen, Relation.TransGen g.Calls passed ref) →
      g.Means ref (g.summary ref true 0 seen) := by
  induction ref, seen using g.passing_induction with
  | _ ref seen ih =>
      intro hseen
      by_cases hcall : g.category (g.attr ref) = .methodCall
      · obtain ⟨callee, hcallee⟩ := exists_calls hcall
        obtain ⟨-, id, -, rfl⟩ := id hcallee
        rw [summary_of_calls hcallee]
        by_cases hpassed : seen.contains (.symbol id) = true
        · rw [if_pos hpassed]
          have hcircle := Relation.TransGen.head hcallee
            (hseen _ (List.contains_iff_mem.mp hpassed))
          exact .endless fun last => not_endsAt_of_circle hcircle
        · rw [if_neg hpassed]
          refine (ih id hcallee (by simpa using hpassed) ?_).congr fun last =>
            (endsAt_iff_of_calls hcallee).symm
          intro passed hmem
          rcases List.mem_cons.mp hmem with rfl | hmem
          · exact .single hcallee
          · exact (hseen passed hmem).tail hcallee
      · rcases hnode : g.valueDeclaration? ref with _ | node
        · rw [summary_of_plain hcall (Or.inl hnode)]
          exact .plain (endsAt_self hcall) hnode
        · rw [summary_of_declared hnode (by decide)]
          refine .declared (endsAt_self hcall) hnode (says_summary (by decide) ?_)
          intro passed hmem
          rcases List.mem_cons.mp hmem with rfl | hmem
          · exact Or.inr (says_nothing_of_value .refl hnode)
          · exact Or.inr (says_nothing_of_value (hseen passed hmem).to_reflTransGen hnode)

/-- A method that calls a value of a type that the method itself declares. -/
def circle : Graph :=
  (Graph.ofTables? #[{ kind := .record, name := "T", symbol := some 2 }]
    #[{ type := some 0, isMethod := true, callee := some 1 }, { type := some 0 },
      { node := some 0 }]
    #[{ tag := Tag.funcDef, attr := .symbol 0 }] .empty).get (by decide +kernel)

end Graph

end EditorBridge
