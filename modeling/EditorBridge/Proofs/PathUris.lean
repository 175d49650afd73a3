/-
Paths survive the trip through URIs.  A path that is resolved leads where its segments lead one
after another from the root directory; its text is read as itself, and the URI made of it names
it again, whatever characters it holds.
-/
import EditorBridge.Proofs.Outcomes
import EditorBridge.Proofs.PercentEncoding
import Mathlib.Data.List.Infix
import Mathlib.Data.List.TakeWhile

namespace EditorBridge

namespace Text

variable {α : Type} [DecidableEq α]

theorem splitAt_eq_splitOn (mark : α) (cs : List α) : splitAt mark cs = cs.splitOn mark := by
  rw [List.splitOn]
  induction cs with
  | nil => rfl
  | cons c rest ih =>
      rw [splitAt, List.splitOnP_cons_eq_if_modifyHead, ← ih]
      by_cases hc : c = mark
      · rw [if_pos hc, if_pos (by simpa using hc)]
      · rw [if_neg hc, if_neg (by simpa using hc)]
        obtain ⟨part, more, hsplit⟩ := List.exists_cons_of_ne_nil (splitAt_ne_nil mark rest)
        rw [hsplit]
        rfl

/-- The parts of a text are made of its characters but the mark. -/
theorem mem_of_mem_splitAt {mark : α} {cs part : List α} (hpart : part ∈ splitAt mark cs) :
    ∀ c ∈ part, c ∈ cs ∧ c ≠ mark := by
  induction cs generalizing part with
  | nil =>
      rw [List.mem_singleton.mp hpart]
      exact List.forall_mem_nil _
  | cons d rest ih =>
      have hrest : ∀ {part}, part ∈ splitAt mark rest → ∀ c ∈ part, c ∈ d :: rest ∧ c ≠ mark :=
        fun hpart c hc => ⟨List.mem_cons_of_mem d (ih hpart c hc).1, (ih hpart c hc).2⟩
      obtain ⟨first, more, hsplit⟩ := List.exists_cons_of_ne_nil (splitAt_ne_nil mark rest)
      rw [hsplit] at hrest
      rw [splitAt, hsplit] at hpart
      split at hpart
      next =>
          rcases List.mem_cons.mp hpart with rfl | hpart
          · exact List.forall_mem_nil _
          · exact hrest hpart
      next hne =>
          rcases List.mem_cons.mp hpart with rfl | hpart
          · exact List.forall_mem_cons.mpr ⟨⟨List.mem_cons_self, hne⟩, hrest List.mem_cons_self⟩
          · exact hrest (List.mem_cons_of_mem first hpart)

/-- What holds of all parts and of the mark between them holds of the whole. -/
theorem forall_mem_intercalate {α : Type} {p : α → Prop} {mark : List α} {parts : List (List α)}
    (hmark : ∀ c ∈ mark, p c) (hparts : ∀ part ∈ parts, ∀ c ∈ part, p c) :
    ∀ c ∈ mark.intercalate parts, p c := by
  induction parts with
  | nil => exact List.forall_mem_nil _
  | cons part more ih =>
      obtain ⟨hpart, hmore⟩ := List.forall_mem_cons.mp hparts
      by_cases hlast : more = []
      · rw [hlast, List.intercalate_singleton]
        exact hpart
      · rw [List.intercalate_cons_of_ne_nil hlast]
        simp only [List.forall_mem_append]
        exact ⟨⟨hpart, hmark⟩, ih hmore⟩

end Text

namespace Path

/-- A name leads into a directory or to a file: it has no slash, and it is not empty, `.` or
`..`. -/
def IsEntry (name : Text) : Prop :=
  name ≠ "" ∧ name ≠ "." ∧ name ≠ ".." ∧ .char '/' ∉ name.points

/-- The path leads from the root directory to an entry at every name. -/
structure IsResolved (path : Path) : Prop where
  root : path.root = .slash
  names : ∀ name ∈ path.names, IsEntry name

/-- Where a segment of a path leads from a place, which is given by the names on the way there
from the root directory. -/
def goTo (place : List Text) (segment : List CodePoint) : List Text :=
  if segment = [] ∨ segment = [.char '.'] then place
  else if segment = [.char '.', .char '.'] then place.dropLast
  else place ++ [⟨segment⟩]

theorem IsEntry.points_ne {name : Text} (hname : IsEntry name) :
    name.points ≠ [] ∧ name.points ≠ [.char '.'] :=
  ⟨fun hempty => hname.1 (Text.ext hempty), fun hpoint => hname.2.1 (Text.ext hpoint)⟩

section

variable {names : List Text} (hnames : ∀ name ∈ names, IsEntry name)
include hnames

/-- Names put together with slashes are cut into the same names. -/
theorem filter_splitAt_intercalate :
    ((Text.splitAt (.char '/') ([.char '/'].intercalate (names.map Text.points))).filter fun name =>
      name != [] && name != [.char '.']) = names.map Text.points := by
  rcases names with _ | ⟨first, more⟩
  · rfl
  · rw [Text.splitAt_eq_splitOn, List.splitOn_intercalate, List.filter_eq_self]
    · rw [List.forall_mem_map]
      intro name hname
      simpa using (hnames name hname).points_ne
    · rw [List.forall_mem_map]
      exact fun name hname => (hnames name hname).2.2.2
    · exact List.cons_ne_nil _ _

/-- No slash stands in front of the first name. -/
theorem takeWhile_intercalate :
    ([.char '/'].intercalate (names.map Text.points)).takeWhile (· == .char '/') = [] := by
  rcases names with _ | ⟨first, more⟩
  · rfl
  · have hfirst := hnames first List.mem_cons_self
    obtain ⟨c, rest, hcons⟩ := List.exists_cons_of_ne_nil hfirst.points_ne.1
    have hc : ¬(c == .char '/') = true := by
      rw [beq_iff_eq]
      rintro rfl
      exact hfirst.2.2.2 (hcons ▸ List.mem_cons_self)
    have hhead : ∃ later,
        [.char '/'].intercalate ((first :: more).map Text.points) = c :: later := by
      rw [List.map_cons, hcons]
      rcases more with _ | ⟨second, more⟩
      · exact ⟨rest, by simp [List.intercalate]⟩
      · rw [List.map_cons, List.intercalate_cons_cons]
        exact ⟨_, rfl⟩
    obtain ⟨later, hlater⟩ := hhead
    rw [hlater, List.takeWhile_cons, if_neg hc]

end

/-- The text of a resolved path: its names, with a slash in front of each, or one slash alone. -/
theorem points_text {path : Path} (hroot : path.root = .slash) :
    path.text.points = .char '/' :: [.char '/'].intercalate (path.names.map Text.points) := by
  rw [text, hroot]
  rfl

/-- The text of a resolved path is read as this path. -/
theorem ofText_text {path : Path} (hpath : path.IsResolved) : ofText path.text = path := by
  have hsplit := filter_splitAt_intercalate hpath.names
  have hslashes := takeWhile_intercalate hpath.names
  obtain ⟨root, names⟩ := path
  obtain rfl : root = .slash := hpath.root
  have hnames : names.map (Text.mk ∘ Text.points) = names := List.map_id names
  rw [ofText, points_text rfl, Text.splitAt, if_pos rfl, List.takeWhile_cons, if_pos (by rfl),
    hslashes, List.filter_cons_of_neg (by decide), hsplit, List.map_map, hnames]
  rfl

/-- The names that are left are those of the place that all names lead to. -/
theorem collapse_eq_foldl (names : List Text) :
    collapse names =
      names.foldl (fun place (name : Text) =>
        if name = ".." then place.dropLast else place ++ [name]) [] := by
  have hkept : ∀ kept : List Text,
      (names.foldl (fun kept (name : Text) => if name = ".." then kept.drop 1 else name :: kept)
        kept).reverse =
      names.foldl (fun place (name : Text) =>
        if name = ".." then place.dropLast else place ++ [name]) kept.reverse := by
    induction names with
    | nil => exact fun _ => rfl
    | cons name rest ih =>
        intro kept
        rw [List.foldl_cons, List.foldl_cons, ih]
        split
        · rw [List.drop_one, List.dropLast_reverse]
        · rw [List.reverse_cons]
  exact hkept []

theorem mk_eq_iff (segment : List CodePoint) (name : Text) :
    Text.mk segment = name ↔ segment = name.points := Text.ext_iff

/-- Segments that are dropped from a path lead nowhere. -/
theorem collapse_ofText (text : Text) :
    collapse (ofText text).names = (Text.splitAt (.char '/') text.points).foldl goTo [] := by
  rw [collapse_eq_foldl, ofText, List.foldl_map, List.foldl_filter]
  congr 1
  funext place segment
  have hdots : Text.mk segment = ".." ↔ segment = [.char '.', .char '.'] := mk_eq_iff segment ".."
  by_cases hdropped : segment = [] ∨ segment = [.char '.']
  · rw [goTo, if_pos hdropped, if_neg]
    simpa using hdropped.resolve_left
  · rw [goTo, if_neg hdropped, if_pos (by simpa using hdropped)]
    exact if_congr hdots rfl rfl

theorem forall_mem_goTo {p : Text → Prop} {place : List Text} {segment : List CodePoint}
    (hplace : ∀ name ∈ place, p name)
    (hsegment : segment ≠ [] → segment ≠ [.char '.'] → segment ≠ [.char '.', .char '.'] →
      p ⟨segment⟩) :
    ∀ name ∈ goTo place segment, p name := by
  rw [goTo]
  split
  next => exact hplace
  next hkept =>
      split
      next => exact fun name hname => hplace name (List.mem_of_mem_dropLast hname)
      next hdown =>
          obtain ⟨hempty, hpoint⟩ := not_or.mp hkept
          rw [List.forall_mem_append, List.forall_mem_singleton]
          exact ⟨hplace, hsegment hempty hpoint hdown⟩

/-- Following segments from the root directory one only ever meets those that lead further. -/
theorem forall_mem_foldl_goTo {p : Text → Prop} {segments : List (List CodePoint)}
    {place : List Text} (hplace : ∀ name ∈ place, p name)
    (hsegments : ∀ segment ∈ segments, segment ≠ [] → segment ≠ [.char '.'] →
      segment ≠ [.char '.', .char '.'] → p ⟨segment⟩) :
    ∀ name ∈ segments.foldl goTo place, p name := by
  induction segments generalizing place with
  | nil => exact hplace
  | cons segment rest ih =>
      obtain ⟨hsegment, hrest⟩ := List.forall_mem_cons.mp hsegments
      exact ih (forall_mem_goTo hplace hsegment) hrest

/-- The segments of a text lead to entries. -/
theorem isResolved_segments (text : Text) :
    IsResolved ⟨.slash, (Text.splitAt (.char '/') text.points).foldl goTo []⟩ := by
  refine ⟨rfl, forall_mem_foldl_goTo (List.forall_mem_nil _) ?_⟩
  intro segment hsegment hempty hpoint hdown
  refine ⟨fun hname => hempty ?_, fun hname => hpoint ?_, fun hname => hdown ?_, fun hslash => ?_⟩
  · exact (mk_eq_iff segment "").mp hname
  · exact (mk_eq_iff segment ".").mp hname
  · exact (mk_eq_iff segment "..").mp hname
  · exact (Text.mem_of_mem_splitAt hsegment _ hslash).2 rfl

/-- The name of a file can be asked for: no lone surrogate and no NUL is in it. -/
def IsOpenable (name : Text) : Prop :=
  ∀ c ∈ name.points, c.isLone = false ∧ c ≠ .char '\x00'

theorem isOpenable_slash : IsOpenable "/" := List.forall_mem_singleton.mpr ⟨rfl, by decide⟩

/-- Names that can be asked for make a path that can be asked for. -/
theorem isOpenable_join {front : Text} {names : List Text} (hfront : IsOpenable front)
    (hnames : ∀ name ∈ names, IsOpenable name) : IsOpenable (front ++ Text.join "/" names) := by
  rw [IsOpenable, Text.points_append, List.forall_mem_append]
  refine ⟨hfront, Text.forall_mem_intercalate isOpenable_slash ?_⟩
  rw [List.forall_mem_map]
  exact hnames

theorem isOpenable_segment {text : Text} (htext : IsOpenable text) {segment : List CodePoint}
    (hsegment : segment ∈ Text.splitAt (.char '/') text.points) : IsOpenable ⟨segment⟩ :=
  fun c hc => htext c (Text.mem_of_mem_splitAt hsegment c hc).1

theorem octetsFrom_glyphs (start : Nat) (cs : List Char) :
    octetsFrom start (Text.glyphs cs) = .ok (Text.Utf8.encode cs) := by
  induction cs generalizing start with
  | nil => rfl
  | cons c rest ih =>
      change (octetsFrom (start + 1) (Text.glyphs rest)).map _ = _
      rw [ih, Text.Utf8.encode_cons]
      rfl

theorem octets_of_isWhole {text : Text} (hwhole : Text.isWhole text.points = true) :
    octets text = .ok (Text.Utf8.encode (Text.chars text.points)) := by
  rw [octets, ← octetsFrom_glyphs 0, Text.glyphs_chars hwhole]

theorem IsOpenable.isWhole {text : Text} (htext : IsOpenable text) :
    Text.isWhole text.points = true := by
  rw [Text.isWhole, List.all_eq_true]
  intro c hc
  rw [(htext c hc).1, Bool.not_false]

theorem IsOpenable.of_isWhole {text : Text} (hwhole : Text.isWhole text.points = true)
    (hnul : .char '\x00' ∉ text.points) : IsOpenable text := by
  intro c hc
  refine ⟨by simpa using List.all_eq_true.mp hwhole c hc, ?_⟩
  rintro rfl
  exact hnul hc

theorem IsOpenable.checkText {text : Text} (htext : IsOpenable text) :
    checkText text = .ok () := by
  rw [Path.checkText, octets_of_isWhole htext.isWhole, if_neg]
  rw [List.contains_iff_mem]
  exact fun hnul => (htext _ hnul).2 rfl

theorem follow_of_isOpenable {isRelative : Bool} {names kept : List Text}
    (hkept : ∀ name ∈ kept, IsOpenable name) (hnames : ∀ name ∈ names, IsOpenable name) :
    follow isRelative kept names = .ok () := by
  induction names generalizing kept with
  | nil => rfl
  | cons name rest ih =>
      obtain ⟨hname, hrest⟩ := List.forall_mem_cons.mp hnames
      have hdeeper : ∀ other ∈ name :: kept, IsOpenable other :=
        List.forall_mem_cons.mpr ⟨hname, hkept⟩
      rw [follow]
      split
      next =>
          apply ih _ hrest
          split
          · exact hdeeper
          · exact fun other hother => hkept other (List.mem_of_mem_drop hother)
      next =>
          have hfront : IsOpenable (Text.ofString (if isRelative then "" else "/")) := by
            cases isRelative with
            | true => exact List.forall_mem_nil _
            | false => exact isOpenable_slash
          have hplace := isOpenable_join hfront fun other hother =>
            hdeeper other (List.mem_reverse.mp hother)
          rw [hplace.checkText]
          exact ih hdeeper hrest

/-- A path that can be asked for is resolved to where its segments lead. -/
theorem resolve_ofText {text : Text} (htext : IsOpenable text) :
    (ofText text).resolve =
      .ok ⟨.slash, (Text.splitAt (.char '/') text.points).foldl goTo []⟩ := by
  have hnames : ∀ name ∈ (ofText text).names, IsOpenable name := by
    intro name hname
    obtain ⟨segment, hsegment, rfl⟩ := List.mem_map.mp hname
    exact isOpenable_segment htext (List.mem_of_mem_filter hsegment)
  rw [resolve, follow_of_isOpenable (List.forall_mem_nil _) hnames, collapse_ofText]

end Path

namespace Uri

/-- A file URI names the path whose octets were encoded in it. -/
theorem toPath_fileUri (octets : List UInt8) :
    toPath (Text.ofChars (fileMark ++ percentEncode (0x2f :: octets))) =
      .ok (Path.ofText ⟨Text.glyphs (Text.Utf8.decodeLenient (0x2f :: octets))⟩) := by
  have hslash : Text.glyphs (percentEncode (0x2f :: octets)) =
      .char '/' :: Text.glyphs (percentEncode octets) := rfl
  have hencoded : ∀ c ∈ Text.glyphs (percentEncode (0x2f :: octets)),
      isDropped c = false ∧ endsPath c = false := by
    rw [Text.glyphs, List.forall_mem_map]
    intro c hc
    have hchar := isEncodedChar_percentEncode (0x2f :: octets) c hc
    simp only [isEncodedChar, Bool.and_eq_true, Bool.not_eq_true', bne_iff_ne] at hchar
    refine ⟨hchar.1.1.2, ?_⟩
    simp [endsPath, hchar.1.2, hchar.2]
  have hkept : (Text.glyphs (percentEncode (0x2f :: octets))).filter (fun c => !isDropped c) =
      Text.glyphs (percentEncode (0x2f :: octets)) :=
    List.filter_eq_self.mpr fun c hc => by rw [(hencoded c hc).1, Bool.not_false]
  have hpath : (Text.glyphs (percentEncode (0x2f :: octets))).takeWhile (fun c => !endsPath c) =
      Text.glyphs (percentEncode (0x2f :: octets)) :=
    List.takeWhile_eq_self_iff.mpr fun c hc => by rw [(hencoded c hc).2, Bool.not_false]
  have hauthority : (Text.glyphs (percentEncode (0x2f :: octets))).takeWhile
      (fun c => !endsAuthority c) = [] := by
    rw [hslash, List.takeWhile_cons, if_neg (by decide)]
  have hbehind : (Text.glyphs (percentEncode (0x2f :: octets))).dropWhile
      (fun c => !endsAuthority c) = Text.glyphs (percentEncode (0x2f :: octets)) := by
    rw [hslash, List.dropWhile_cons, if_neg (by decide)]
  have huri : (Text.ofChars (fileMark ++ percentEncode (0x2f :: octets))).points =
      Text.glyphs fileMark ++ Text.glyphs (percentEncode (0x2f :: octets)) := List.map_append
  have hmarked : (Text.glyphs fileMark).isPrefixOf
      (Text.glyphs fileMark ++ Text.glyphs (percentEncode (0x2f :: octets))) = true :=
    List.isPrefixOf_iff_prefix.mpr (List.prefix_append _ _)
  have hdrop : (Text.glyphs fileMark ++ Text.glyphs (percentEncode (0x2f :: octets))).drop
      fileMark.length = Text.glyphs (percentEncode (0x2f :: octets)) := by
    have hlength : fileMark.length = (Text.glyphs fileMark).length := (List.length_map _).symm
    rw [hlength]
    exact List.drop_left
  rw [toPath]
  simp only [huri, hmarked, if_true, hdrop, hkept, hauthority, hbehind, hpath,
    percentDecode_percentEncode]
  rfl

/-- A path that is resolved has a URI when it can be asked for, and the URI names it. -/
theorem exists_toPath_ofPath {path resolved : Path} (hresolved : path.resolve = .ok resolved)
    (hshape : resolved.IsResolved) (hnames : ∀ name ∈ resolved.names, Path.IsOpenable name) :
    ∃ uri, ofPath path = .ok uri ∧ toPath uri = .ok resolved := by
  have hpoints := Path.points_text hshape.root
  have hwhole : Text.isWhole resolved.text.points = true := by
    have hopenable := Path.isOpenable_join Path.isOpenable_slash hnames
    exact hpoints ▸ hopenable.isWhole
  have huri : ofPath path = .ok (Text.ofChars
      (fileMark ++ percentEncode (Text.Utf8.encode (Text.chars resolved.text.points)))) := by
    rw [ofPath, hresolved]
    change (Path.octets resolved.text).mapError _ >>= _ = _
    rw [Path.octets_of_isWhole hwhole]
    rfl
  obtain ⟨cs, hcs⟩ : ∃ cs, Text.chars resolved.text.points = '/' :: cs := by
    rw [hpoints]
    exact ⟨_, rfl⟩
  have hback : Text.glyphs ('/' :: cs) = resolved.text.points := by
    rw [← hcs, Text.glyphs_chars hwhole]
  rw [hcs] at huri
  refine ⟨_, huri, (toPath_fileUri (Text.Utf8.encode cs)).trans ?_⟩
  change Except.ok (Path.ofText
    ⟨Text.glyphs (Text.Utf8.decodeLenient (Text.Utf8.encode ('/' :: cs)))⟩) = _
  rw [Text.Utf8.decodeLenient_encode, hback, Path.ofText_text hshape]

/-- Paths survive the trip through URIs.  A path without NUL is resolved to a path from the root
directory, whose names are those of the place that its segments lead to one after another, with
no empty name, `.` or `..` among them; it has a URI, and this URI names the resolved path.  So
paths that are resolved differently have different URIs. -/
theorem paths_survive_uris :
    (∀ text : Text, Text.isWhole text.points = true → .char '\x00' ∉ text.points →
      ∃ resolved uri, (Path.ofText text).resolve = .ok resolved ∧ resolved.IsResolved ∧
        resolved.names = (Text.splitAt (.char '/') text.points).foldl Path.goTo [] ∧
        ofPath (Path.ofText text) = .ok uri ∧ toPath uri = .ok resolved) ∧
    ∀ first second : Text, Text.isWhole first.points = true → .char '\x00' ∉ first.points →
      Text.isWhole second.points = true → .char '\x00' ∉ second.points →
      (Path.ofText first).resolve ≠ (Path.ofText second).resolve →
      ofPath (Path.ofText first) ≠ ofPath (Path.ofText second) := by
  have htrip : ∀ text : Text, Text.isWhole text.points = true → .char '\x00' ∉ text.points →
      ∃ resolved uri, (Path.ofText text).resolve = .ok resolved ∧ resolved.IsResolved ∧
        resolved.names = (Text.splitAt (.char '/') text.points).foldl Path.goTo [] ∧
        ofPath (Path.ofText text) = .ok uri ∧ toPath uri = .ok resolved := by
    intro text hwhole hnul
    have htext := Path.IsOpenable.of_isWhole hwhole hnul
    have hresolved := Path.resolve_ofText htext
    have hshape := Path.isResolved_segments text
    obtain ⟨uri, huri, hnamed⟩ := exists_toPath_ofPath hresolved hshape
      (Path.forall_mem_foldl_goTo (List.forall_mem_nil _) fun segment hsegment _ _ _ =>
        Path.isOpenable_segment htext hsegment)
    exact ⟨_, uri, hresolved, hshape, rfl, huri, hnamed⟩
  refine ⟨htrip, fun first second hfirst hfirstNul hsecond hsecondNul hne hsame => hne ?_⟩
  obtain ⟨resolved, uri, hresolved, -, -, huri, hnamed⟩ := htrip first hfirst hfirstNul
  obtain ⟨other, otherUri, hother, -, -, hotherUri, hotherNamed⟩ := htrip second hsecond hsecondNul
  obtain rfl : uri = otherUri := Except.ok.inj (huri.symm.trans (hsame.trans hotherUri))
  obtain rfl : resolved = other := Except.ok.inj (hnamed.symm.trans hotherNamed)
  rw [hresolved, hother]

/-- A relative path with points, doubled slashes and characters that mean something in a URI. -/
theorem paths_survive_uris_of_marks :
    let text : Text := "a b/.//c/../%41?#;é\n:/"
    (Text.isWhole text.points = true ∧ .char '\x00' ∉ text.points) ∧
      ∃ uri, ofPath (Path.ofText text) = .ok uri ∧
        toPath uri = .ok ⟨.slash, ["a b", "%41?#;é\n:"]⟩ := by
  intro text
  have hwhole : Text.isWhole text.points = true := by decide +kernel
  have hnul : .char '\x00' ∉ text.points := by decide +kernel
  obtain ⟨resolved, uri, hresolved, -, -, huri, hnamed⟩ := paths_survive_uris.1 text hwhole hnul
  have hnames : (Path.ofText text).resolve = .ok ⟨.slash, ["a b", "%41?#;é\n:"]⟩ := by
    decide +kernel
  obtain rfl := Except.ok.inj (hresolved.symm.trans hnames)
  exact ⟨⟨hwhole, hnul⟩, uri, huri, hnamed⟩

end Uri

end EditorBridge
