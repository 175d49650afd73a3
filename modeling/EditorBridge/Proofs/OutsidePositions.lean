/-
Places outside a document.  A line behind the last one, a character behind the end of its line
and a character inside a surrogate pair are the positions of no offset.  A query about such a
place finds nothing, with a tree or without: the host is not asked, and the empty result is all
that is sent.
-/
import EditorBridge.Proofs.PositionMeaning
import EditorBridge.Proofs.TokenAnswers

namespace EditorBridge

namespace Position

/-- There is no such line, the line has too few units, or the units end inside a character. -/
def IsOutside (text : List CodePoint) (p : Position) : Prop :=
  lineCount text ≤ p.line ∨
    p.line < lineCount text ∧ (unitLength (lineText text p.line) < p.character ∨
      Splits (lineText text p.line) p.character)

theorem isOutside_iff_toOffset {text : List CodePoint} {p : Position} :
    p.IsOutside text ↔ ∃ cause, toOffset text p.line p.character = .error cause := by
  constructor
  · rintro (hline | ⟨hline, hunits | hsplits⟩)
    · exact ⟨_, toOffset_of_refusal (.lineOutside (Or.inr (Int.ofNat_le.mpr hline)))⟩
    · exact ⟨_, toOffset_of_refusal (.pastLineEnd hline hunits)⟩
    · exact ⟨_, toOffset_of_refusal (.splitsPair hline hsplits)⟩
  · rintro ⟨cause, hcause⟩
    by_cases hline : p.line < lineCount text
    · refine Or.inr ⟨hline, ?_⟩
      rw [toOffset_eq_seek hline] at hcause
      rcases hseek : seek p.character (dropLines p.line text) with (_ | _) | n
      · exact Or.inl ((seek_eq_pastEnd_iff _ _).mp hseek)
      · exact Or.inr ((seek_eq_insidePair_iff _ _).mp hseek)
      · rw [hseek] at hcause
        cases hcause
    · exact Or.inl (Nat.not_lt.mp hline)

/-- Exactly these are the positions of no offset. -/
theorem isOutside_iff {text : List CodePoint} {p : Position} :
    p.IsOutside text ↔ ∀ n ≤ text.length, behind (text.take n) ≠ p := by
  rw [isOutside_iff_toOffset]
  constructor
  · rintro ⟨cause, hcause⟩ n hn hp
    rw [(toOffset_natCast_iff text p n).mpr ⟨hn, hp⟩] at hcause
    cases hcause
  · intro hnone
    rcases hoffset : toOffset text p.line p.character with cause | n
    · exact ⟨cause, rfl⟩
    · obtain ⟨hn, hp⟩ := (toOffset_natCast_iff text p n).mp hoffset
      exact absurd hp (hnone n hn)

/-- In a text without lone surrogates these are the positions that no offset is given. -/
theorem isOutside_iff_ofOffset {text : List CodePoint} (hwhole : Text.isWhole text = true)
    {p : Position} : p.IsOutside text ↔ ∀ offset : Int, ofOffset text offset ≠ .ok p := by
  rw [isOutside_iff]
  constructor
  · intro hnone offset hoffset
    obtain ⟨n, rfl, hn, -, hp⟩ := (ofOffset_eq_ok_iff text offset p).mp hoffset
    exact hnone n hn hp
  · intro hnone n hn hp
    exact hnone n ((ofOffset_eq_ok_iff text n p).mpr
      ⟨n, rfl, hn, isWhole_lastLine_take hwhole n, hp⟩)

end Position

/-- The request about a place of a document, with nothing that may be left out. -/
def Query.ask (query : Query) (id : Json) (place : Params.PositionParams) : Json.Fields :=
  [("id", id), ("method", .str query.method),
    ("params", .obj [("textDocument", .obj [("uri", .str place.uri)]),
      ("position", .obj [("line", .int place.position.line),
        ("character", .int place.position.character)])])]

theorem Params.readCoordinate?_natCast {n : Nat} (hn : n ≤ Position.maxCoordinate) :
    readCoordinate? (.int n) = some n := by
  have hbounds : (0 : Int) ≤ n ∧ (n : Int) ≤ 2147483647 :=
    ⟨Int.natCast_nonneg n, Int.ofNat_le.mpr hn⟩
  rw [readCoordinate?, readBetween?, readInt?, Option.filter_some, if_pos (decide_eq_true hbounds)]
  rfl

/-- The place that was asked about is read back. -/
theorem Query.readPlace_ask (query : Query) (id : Json) {place : Params.PositionParams}
    (hplace : place.position.IsNameable) :
    Params.lenient.place query.shape (Config.paramsOf (query.ask id place)) = .ok place := by
  have hline := Params.readCoordinate?_natCast hplace.1
  have hcharacter := Params.readCoordinate?_natCast hplace.2
  have hposition : Params.readPosition? (.obj [("line", .int place.position.line),
      ("character", .int place.position.character)]) = some place.position := by
    change (Params.readCoordinate? _).bind _ = _
    rw [hline]
    change (Params.readCoordinate? _).bind _ = _
    rw [hcharacter]
    rfl
  cases query with
  | _ =>
      change ((Params.readTwo _ _ (some place.uri) (Params.readPosition? _)).map _).mapError _ = _
      rw [hposition]
      rfl

namespace Config

open Serving

section

variable {cfg : Config} {s : Session} {document : Document} {place : Params.PositionParams}
  (hdocument : s.documents.get? place.uri = some document)
  (houtside : place.position.IsOutside document.text.points)
include hdocument houtside

/-- Nothing sits at a place outside the document. -/
theorem run_find_of_isOutside :
    ∃ entries, (cfg.find place).run s = (.ok none, s.logged entries) := by
  obtain ⟨cause, hcause⟩ := Position.isOutside_iff_toOffset.mp houtside
  rw [find, run_bind, cfg.run_document_of_some hdocument]
  dsimp only
  rcases document.tree with _ | tree
  · exact ⟨[], by rw [Session.logged, List.append_nil]; rfl⟩
  · rw [hcause]
    exact ⟨_, rfl⟩

/-- A completion outside the document ends before its trial. -/
theorem run_completion_of_isOutside :
    ∃ entries, (cfg.completion place).run s = (.ok [], s.logged entries) := by
  obtain ⟨cause, hcause⟩ := Position.isOutside_iff_toOffset.mp houtside
  have hcomplete : (cfg.complete place.uri place.position.line place.position.character).run s =
      (.error (.position cause), s) := by
    rw [complete, run_bind, cfg.run_document_of_some hdocument]
    dsimp only
    rw [run_bind, offsetOf, run_lift, hcause]
    rfl
  rw [completion, run_bind, run_attempt, hcomplete]
  exact ⟨_, rfl⟩

/-- The work on a query about a place outside the document only writes to the log. -/
theorem run_answer_of_isOutside {query : Query} {params : Json}
    (hplace : cfg.readers.place query.shape params = .ok place) :
    ∃ entries, (cfg.answer query.request params).run s = (.ok query.empty, s.logged entries) := by
  obtain ⟨entries, hfind⟩ := cfg.run_find_of_isOutside hdocument houtside
  cases query with
  | hover =>
      refine ⟨entries, ?_⟩
      rw [Query.request, answer,
        show cfg.readers.place Params.hoverShape params = _ from hplace, run_ofParams_bind,
        run_bind, hover, run_bind, hfind]
      rfl
  | definition =>
      refine ⟨entries, ?_⟩
      rw [Query.request, answer,
        show cfg.readers.place Params.definitionShape params = _ from hplace, run_ofParams_bind,
        run_bind, definition, run_bind, hfind]
      rfl
  | completion =>
      obtain ⟨entries, hcompletion⟩ := cfg.run_completion_of_isOutside hdocument houtside
      refine ⟨entries, ?_⟩
      rw [Query.request, answer,
        show cfg.readers.place Params.completionShape params = _ from hplace, run_ofParams_bind,
        run_bind, hcompletion]
      rfl

end

/-- A query finds nothing: its work ends with the empty result, which is sent and noted, and the
session stays as it is; or the identifier cannot be written, and then the query fails and
nothing is sent. -/
structure FindsNothing (cfg : Config) (s : Session) (message : Json.Fields) (id : Json)
    (query : Query) : Prop where
  outcome : ((cfg.answer query.request (paramsOf message)).run
    (received s id query.method)).1 = .ok query.empty
  sent : id.Writable → ∃ log, (cfg.handle message).run s =
    (.ok (), { s with sent := s.sent ++ [.response id query.empty], log })
  unsent : ¬id.Writable → ∃ cause log, (cfg.handle message).run s =
    (.error (.ofWrite cause), { s with log })

/-- A request about a place outside the document finds nothing. -/
theorem findsNothing_of_isOutside {cfg : Config} {query : Query} {document : Document}
    (inquiry : Inquiry cfg query document)
    (houtside : inquiry.place.position.IsOutside document.text.points) :
    cfg.FindsNothing inquiry.session inquiry.message inquiry.id query := by
  obtain ⟨entries, hanswer⟩ :=
    cfg.run_answer_of_isOutside inquiry.get?_arrived houtside inquiry.placed
  rw [Inquiry.arrived] at hanswer
  have hrun := cfg.run_serveRequest_of_lookup inquiry.id query.lookup_method
    (paramsOf inquiry.message) inquiry.session
  rw [hanswer, ← cfg.handle_of_query inquiry.asks inquiry.named inquiry.awaits] at hrun
  dsimp only at hrun
  rw [run_send] at hrun
  rcases (Outgoing.response inquiry.id query.empty).sending_cases with
    ⟨hwritable, hsending, hwritten⟩ | ⟨hunwritable, cause, hsending, hwritten⟩
  · rw [hsending, hwritten] at hrun
    have hid := (Outgoing.isWritable_response_iff.mp hwritable).1
    exact ⟨congrArg Prod.fst hanswer, fun _ => ⟨_, hrun⟩, fun hlone => absurd hid hlone⟩
  · rw [hsending, hwritten, List.append_nil] at hrun
    exact ⟨congrArg Prod.fst hanswer,
      fun hid => absurd (isWritable_empty hid query) hunwritable, fun _ => ⟨cause, _, hrun⟩⟩

/-- The positions that no offset of a document has are those of lines and characters that it
does not have and of halves of surrogate pairs.  Every request about one of them, in whatever
state of the session, is sent the empty result and nothing else, if its identifier can be written:
no document changes, nothing is asked of the host, and whether the document has a tree makes no
difference.  All such places up to the largest coordinates can be asked about. -/
theorem outside_positions_find_nothing (cfg : Config) (query : Query) (document : Document)
    (p : Position) :
    (p.IsOutside document.text.points ↔
      ∀ n ≤ document.text.points.length, Position.behind (document.text.points.take n) ≠ p) ∧
    (Text.isWhole document.text.points = true → (p.IsOutside document.text.points ↔
      ∀ offset : Int, Position.ofOffset document.text.points offset ≠ .ok p)) ∧
    (p.IsOutside document.text.points →
      (∀ inquiry : Inquiry cfg query document, inquiry.place.position = p →
        cfg.FindsNothing inquiry.session inquiry.message inquiry.id query) ∧
      (cfg.readers = Params.lenient →
        ∀ (s : Session) (uri : Text) (id : Json), s.documents.get? uri = some document →
        id ≠ .null → p.line ≤ 2147483647 → p.character ≤ 2147483647 →
        cfg.FindsNothing s (query.ask id ⟨uri, p⟩) id query)) := by
  refine ⟨Position.isOutside_iff, fun hwhole => Position.isOutside_iff_ofOffset hwhole,
    fun houtside => ⟨?_, ?_⟩⟩
  · rintro inquiry rfl
    exact findsNothing_of_isOutside inquiry houtside
  · intro hreaders s uri id hdocument hid hline hcharacter
    have hplace : cfg.readers.place query.shape (paramsOf (query.ask id ⟨uri, p⟩)) =
        .ok ⟨uri, p⟩ := by
      rw [hreaders]
      exact query.readPlace_ask id ⟨hline, hcharacter⟩
    let inquiry : Inquiry cfg query document :=
      ⟨s, query.ask id ⟨uri, p⟩, id, ⟨uri, p⟩, rfl, rfl, hid, hplace, hdocument⟩
    exact findsNothing_of_isOutside inquiry houtside

/-- Between the two units of one character, in a document without a tree. -/
theorem outside_positions_find_nothing_in_pair :
    let document : Document := ⟨"file:///a", "😀", none⟩
    let s : Session := { documents := Table.empty.insert "file:///a" document }
    let p : Position := ⟨0, 1⟩
    (∀ offset : Int, Position.ofOffset document.text.points offset ≠ .ok p) ∧
      s.documents.get? "file:///a" = some document ∧
      ∃ log, (shortReader.handle (Query.completion.ask (.int 7) ⟨"file:///a", p⟩)).run s =
        (.ok (), { s with sent := [.response (.int 7) (.arr [])], log }) := by
  intro document s p
  obtain ⟨-, hwhole, hanswers⟩ :=
    shortReader.outside_positions_find_nothing .completion document p
  have houtside : p.IsOutside document.text.points := Or.inr ⟨by decide +kernel,
    Or.inr ⟨[], .char '😀', [], by decide +kernel, by decide, by decide⟩⟩
  have hnothing := (hanswers houtside).2 rfl s "file:///a" (.int 7) rfl (fun h => nomatch h)
    (by decide) (by decide)
  exact ⟨(hwhole (Text.isWhole_ofString "😀")).mp houtside, rfl,
    hnothing.sent (.int (by decide +kernel))⟩

end Config

end EditorBridge
