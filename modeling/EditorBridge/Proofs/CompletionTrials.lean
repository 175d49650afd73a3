/-
Completions and the name at the cursor.  What a completion gives comes from one trial analysis,
of the text without the name at the cursor: to type more of a name changes neither the trial nor
what is offered, and inside a name every place without a digit behind it has the same trial.
-/
import EditorBridge.Proofs.Confinement
import EditorBridge.Proofs.CursorNames
import EditorBridge.Proofs.Ranges

namespace EditorBridge

/-- What is asked for behind a text, by the character that it ends with. -/
def Access.behind : Option CodePoint → Access
  | some (.char '.') => .field
  | some (.char ':') => .method
  | _ => .bare

theorem Cursor.snd_asCall (before : List CodePoint) :
    (asCall before).2 = .behind before.getLast? := by
  rw [asCall]
  split
  next hpoint => rw [hpoint]; rfl
  next hcolon => rw [hcolon]; rfl
  next hpoint hcolon =>
      unfold Access.behind
      split
      next h => exact absurd h hpoint
      next h => exact absurd h hcolon
      next => rfl

/-- The completion items at an offset of what an analysis gave. -/
def Analysis.itemsAt (analysis : Analysis) (offset : Int) (access : Access) :
    List CompletionItem :=
  match analysis.tree with
  | none => []
  | some tree =>
      match tree.locationAt offset with
      | none => []
      | some location => tree.graph.completions location access

namespace Config

open Serving Cursor

/-- The trial behind a completion, with a name already dropped at the cursor. -/
def trial (cfg : Config) (uri : Text) (left behind : List CodePoint) :
    Serving (List CompletionItem) := do
  let (before, mode) := asCall left
  match ← cfg.probe uri ⟨before ++ behind⟩ with
  | none => return []
  | some tree =>
      match tree.locationAt (before.length - 1 : Nat) with
      | none => return []
      | some location =>
          let items := tree.graph.completions location mode
          note .debug ("Completion " ++ uri ++ " mode=" ++ mode.word ++ ": "
            ++ Text.decimalText items.length ++ " items")
          return items

/-- A completion at an offset of a document at hand is the trial of what stands around it. -/
theorem run_complete_of_offset (cfg : Config) {uri : Text} {s : Session} {document : Document}
    (hdocument : s.documents.get? uri = some document) {offset : Nat} {p : Position}
    (hp : Position.toOffset document.text.points p.line p.character = .ok offset) :
    (cfg.complete uri p.line p.character).run s =
      (cfg.trial uri (split document.text.points offset).1
        (split document.text.points offset).2).run s := by
  rw [complete, run_bind, cfg.run_document_of_some hdocument]
  dsimp only
  rw [run_bind, offsetOf, hp, run_lift]
  rfl

/-- The text that a trial analyzes. -/
def trialText (left behind : List CodePoint) : Text := ⟨(asCall left).1 ++ behind⟩

theorem run_probe (cfg : Config) (uri text : Text) (s : Session) :
    ∃ log, (cfg.probe uri text).run s =
      ((cfg.host.examine s.root s.calls uri text).outcome.map Analysis.tree,
        { s with calls := s.calls ++ (cfg.host.examine s.root s.calls uri text).calls, log }) := by
  simp only [probe, run_bind, run_examine]
  cases (cfg.host.examine s.root s.calls uri text).outcome with
  | error fault => exact ⟨_, rfl⟩
  | ok analysis => exact ⟨_, rfl⟩

/-- A trial gives the items that its analysis has where the text before the cursor ends, and
asks for what that text asks for. -/
theorem run_trial (cfg : Config) (uri : Text) (left behind : List CodePoint) (s : Session) :
    let found := cfg.host.examine s.root s.calls uri (trialText left behind)
    ((cfg.trial uri left behind).run s).1 = found.outcome.map (fun analysis =>
        analysis.itemsAt ((asCall left).1.length - 1 : Nat) (.behind left.getLast?)) ∧
      ((cfg.trial uri left behind).run s).2.calls = s.calls ++ found.calls := by
  intro found
  obtain ⟨log, hprobe⟩ := cfg.run_probe uri (trialText left behind) s
  rw [trial, run_bind]
  dsimp only
  rw [← trialText, hprobe, ← snd_asCall]
  cases found.outcome with
  | error fault => exact ⟨rfl, rfl⟩
  | ok analysis =>
      simp only [Except.map, Analysis.itemsAt]
      cases analysis.tree with
      | none => exact ⟨rfl, rfl⟩
      | some tree =>
          dsimp only
          cases tree.locationAt ((asCall left).1.length - 1 : Nat) with
          | none => exact ⟨rfl, rfl⟩
          | some location => exact ⟨rfl, rfl⟩

/-- To type more of a name does not change what is offered: with the cursor behind the name and
with the cursor at the place where the name is missing, the same text is tried, and what is
offered, or the fault, is what the analysis of that text gives.  Whether fields, methods or
names are asked for is told by the character in front of the name. -/
theorem typed_name_changes_no_completion {cfg : Config} (hhost : cfg.host.AnalyzesSteadily)
    {before name behind : List CodePoint} (hbefore : EndsApart before) (hname : IsName name)
    {uri : Text} {s t : Session} {typed bare : Document}
    (htyped : s.documents.get? uri = some typed) (hbare : t.documents.get? uri = some bare)
    (htypedText : typed.text.points = before ++ name ++ behind)
    (hbareText : bare.text.points = before ++ behind) (hroot : t.root = s.root) :
    ∃ p q : Position,
      Position.toOffset typed.text.points p.line p.character =
        .ok (before.length + name.length) ∧
      Position.toOffset bare.text.points q.line q.character = .ok before.length ∧
      let run := (cfg.complete uri p.line p.character).run s
      let other := (cfg.complete uri q.line q.character).run t
      let text := trialText before (dropTokenAtStart behind)
      let found := cfg.host.examine s.root s.calls uri text
      run.1 = other.1 ∧
      run.1 = found.outcome.map (fun analysis =>
        analysis.itemsAt ((asCall before).1.length - 1 : Nat) (.behind before.getLast?)) ∧
      run.2.calls = s.calls ++ found.calls ∧ other.2.calls = t.calls ++ found.calls := by
  have hoffset : before.length + name.length ≤ typed.text.points.length := by
    simp only [htypedText, List.length_append]
    omega
  have hoffset' : before.length ≤ bare.text.points.length := by
    rw [hbareText, List.length_append]
    omega
  have hp := (Position.toOffset_natCast_iff _ _ _).mpr ⟨hoffset, rfl⟩
  have hq := (Position.toOffset_natCast_iff _ _ _).mpr ⟨hoffset', rfl⟩
  refine ⟨_, _, hp, hq, ?_⟩
  have hcut : split bare.text.points before.length = (before, dropTokenAtStart behind) := by
    rw [hbareText, split_append, dropNameAtEnd_of_endsApart hbefore]
  have hcut' : split typed.text.points (before.length + name.length : Nat) =
      (before, dropTokenAtStart behind) := by
    rw [htypedText, split_behind_name hbefore hname, ← hbareText, hcut]
  rw [cfg.run_complete_of_offset htyped hp, cfg.run_complete_of_offset hbare hq, hcut, hcut']
  obtain ⟨houtcome, hcalls⟩ := cfg.run_trial uri before (dropTokenAtStart behind) s
  obtain ⟨houtcome', hcalls'⟩ := cfg.run_trial uri before (dropTokenAtStart behind) t
  rw [hroot, hhost.examine s.root t.calls s.calls] at houtcome' hcalls'
  exact ⟨houtcome.trans houtcome'.symm, houtcome, hcalls, hcalls'⟩

/-- A call on a name of a record type with one field. -/
def recordTree : Tree where
  graph := (Graph.ofTables?
    #[{ name := "integer" },
      { kind := .record, name := "R", fields := Table.empty.insert "width" (some 0) }]
    #[{ name := some "r", type := some 1 }]
    #[{ tag := Tag.block, span := some ⟨0, 4⟩, children := [1] },
      { tag := Tag.call, span := some ⟨0, 3⟩, children := [2] },
      { tag := Tag.id, span := some ⟨0, 1⟩, attr := .symbol 0 }] .empty).get (by decide +kernel)
  root := 0

/-- A host that can parse one program. -/
def recordHost : Host where
  parse := fun _ text _ =>
    if text = "r()\n" then .ok (some recordTree) else .error (.parse "a.nelua:1:1: error: near")
  analyze := fun _ tree _ => .ok tree
  read := fun _ uri => .error (.other "LookupError" ("no such document: " ++ uri))

/-- Behind a point, with two characters of a field and with none, the field is offered. -/
theorem typed_name_changes_no_completion_of_field :
    let cfg : Config := { host := recordHost }
    let uri : Text := "file:///a.nelua"
    let s : Session := { documents := Table.empty.insert uri ⟨uri, "r.wi\n", none⟩ }
    let t : Session := { documents := Table.empty.insert uri ⟨uri, "r.\n", none⟩ }
    cfg.host.AnalyzesSteadily ∧ EndsApart [.char 'r', .char '.'] ∧ IsName [.char 'w', .char 'i'] ∧
      ((cfg.complete uri 0 4).run s).1 = .ok [⟨"width", "integer"⟩] ∧
      ((cfg.complete uri 0 2).run t).1 = .ok [⟨"width", "integer"⟩] := by
  intro cfg uri s t
  have hhost : cfg.host.AnalyzesSteadily := ⟨fun _ _ _ _ => rfl, fun _ _ _ _ _ _ _ => rfl⟩
  have hbefore : EndsApart [.char 'r', .char '.'] := by decide
  have hname : IsName [.char 'w', .char 'i'] := by decide
  have htyped : s.documents.get? uri = some ⟨uri, "r.wi\n", none⟩ := rfl
  have hbare : t.documents.get? uri = some ⟨uri, "r.\n", none⟩ := rfl
  have hfound : (cfg.host.examine s.root s.calls uri "r()\n").outcome =
      .ok ⟨some recordTree, []⟩ := by
    have hpath : Uri.toPath uri = .ok (Path.ofText "/a.nelua") :=
      eq_ok_of_toOption (by decide +kernel)
    rw [Host.examine, hpath]
    rfl
  have hlocation : recordTree.locationAt 2 = some { node := 1, nodes := [0, 1] } := by cbv
  have hitems : Analysis.itemsAt ⟨some recordTree, []⟩ 2 .field = [⟨"width", "integer"⟩] := by
    simp only [Analysis.itemsAt, hlocation]
    decide +kernel
  have htypedText : (Text.ofString "r.wi\n").points =
      [.char 'r', .char '.'] ++ [.char 'w', .char 'i'] ++ [.char '\n'] := rfl
  have hbareText : (Text.ofString "r.\n").points = [.char 'r', .char '.'] ++ [.char '\n'] := rfl
  have htrial : trialText [.char 'r', .char '.'] (dropTokenAtStart [.char '\n']) = "r()\n" := by
    decide +kernel
  obtain ⟨p, q, hp, hq, hsame, hgiven, -⟩ := typed_name_changes_no_completion hhost hbefore hname
    htyped hbare htypedText hbareText rfl
  obtain ⟨-, rfl⟩ := (Position.toOffset_natCast_iff _ p _).mp hp
  obtain ⟨-, rfl⟩ := (Position.toOffset_natCast_iff _ q _).mp hq
  have hoffered : ((cfg.complete uri 0 4).run s).1 = .ok [⟨"width", "integer"⟩] := by
    refine hgiven.trans ?_
    rw [htrial, hfound]
    exact congrArg Except.ok hitems
  exact ⟨hhost, hbefore, hname, hoffered, hsame.symm.trans hoffered⟩

/-- A place in a token where the rest of its name could be a name, too. -/
structure CutsName (text : List CodePoint) (start stop offset : Nat) : Prop where
  behind_start : start < offset
  before_stop : offset < stop
  no_digit : (text[offset]?).any (·.isIn Char.isDigit) = false

/-- Inside a token the name is dropped on both sides, unless a digit comes behind the cursor:
then the rest of the name stays.  At all other places in a token completions are one and the
same, and so is the text that they try. -/
theorem cursor_in_token_drops_name {text : List CodePoint} {start stop : Nat}
    (htoken : IsToken text start stop) :
    (∀ offset : Nat, start < offset → offset < stop →
      ((text[offset]?).any (·.isIn Char.isDigit) = false →
        split text offset = (text.take start, text.drop stop)) ∧
      ((text[offset]?).any (·.isIn Char.isDigit) = true →
        split text offset = (text.take start, text.drop offset))) ∧
    ∀ (cfg : Config) (s : Session) (uri : Text) (document : Document),
      s.documents.get? uri = some document → document.text.points = text →
      ∀ (offset other : Nat) (p q : Position), CutsName text start stop offset →
        CutsName text start stop other → Position.toOffset text p.line p.character = .ok offset →
        Position.toOffset text q.line q.character = .ok other →
        (cfg.complete uri p.line p.character).run s =
          (cfg.complete uri q.line q.character).run s := by
  have hcut : ∀ offset, CutsName text start stop offset →
      split text offset = (text.take start, text.drop stop) := by
    rintro offset ⟨hstart, hstop, hdigit⟩
    rw [split_of_isToken htoken hstart hstop, hdigit, if_neg Bool.false_ne_true]
  refine ⟨fun offset hstart hstop => ⟨fun hdigit => ?_, fun hdigit => ?_⟩, ?_⟩
  · exact hcut offset ⟨hstart, hstop, hdigit⟩
  · rw [split_of_isToken htoken hstart hstop, hdigit, if_pos rfl]
  · rintro cfg s uri document hdocument rfl offset other p q hoffset hother hp hq
    rw [cfg.run_complete_of_offset hdocument hp, cfg.run_complete_of_offset hdocument hq,
      hcut offset hoffset, hcut other hother]

/-- In a name with a digit at its end the cursor in front of the digit keeps it. -/
theorem cursor_in_token_drops_name_of_digit :
    let text := [.char 'x', .char '.', .char 'f', .char 'o', .char 'o', .char '1', .char '(']
    IsToken text 2 6 ∧ split text 4 = ([.char 'x', .char '.'], [.char '(']) ∧
      split text 5 = ([.char 'x', .char '.'], [.char '1', .char '(']) := by
  intro text
  have htoken : IsToken text 2 6 :=
    ⟨by decide, by decide, by decide, by decide⟩
  obtain ⟨hsplit, -⟩ := cursor_in_token_drops_name htoken
  exact ⟨htoken, (hsplit 4 (by decide) (by decide)).1 rfl,
    (hsplit 5 (by decide) (by decide)).2 rfl⟩

/-- Not every cursor inside a token drops the name on both sides. -/
theorem cursor_in_token_may_keep_rest :
    ¬∀ (text : List CodePoint) (start stop offset : Nat), IsToken text start stop → start < offset →
      offset < stop → split text offset = (text.take start, text.drop stop) := by
  intro hall
  have htoken : IsToken [.char 'a', .char '1'] 0 2 :=
    ⟨by decide, by decide, by decide, by decide⟩
  have hdropped : split [.char 'a', .char '1'] 1 = ([], []) :=
    hall [.char 'a', .char '1'] 0 2 1 htoken (by decide) (by decide)
  have hkept : split [.char 'a', .char '1'] 1 = ([], [.char '1']) := by decide
  exact absurd (hkept.symm.trans hdropped) (by decide)

end Config

end EditorBridge
