/-
Frames one behind the other are read one by one.  A packet is a frame as it lies in the
stream; whatever its body holds, reading takes its octets and no others, so the packets
behind it are still found.
-/
import EditorBridge.Message.Frame
import EditorBridge.Proofs.JsonReading

namespace EditorBridge.Frame

/-- The end of a line. -/
inductive LineEnd where
  | feed
  | returnAndFeed

/-- What stands in front of the line feed. -/
def LineEnd.returns : LineEnd → List UInt8
  | .feed => []
  | .returnAndFeed => [carriageReturn]

/-- An octet that is part of no line end. -/
def IsInner (octet : UInt8) : Prop := octet ≠ carriageReturn ∧ octet ≠ lineFeed

instance (octet : UInt8) : Decidable (IsInner octet) :=
  inferInstanceAs (Decidable (octet ≠ carriageReturn ∧ octet ≠ lineFeed))

/-- A header line: at least one octet, none of them part of a line end, and an end. -/
structure HeaderLine where
  inner : List UInt8
  stop : LineEnd
  inner_ne_nil : inner ≠ []
  isInner : ∀ octet ∈ inner, IsInner octet

namespace HeaderLine

def octets (line : HeaderLine) : List UInt8 := line.inner ++ line.stop.returns ++ [lineFeed]

def text (line : HeaderLine) : List Char := line.inner.map headerChar

/-- Whether a line tells a length; small and capital letters count alike. -/
def tellsLength (line : HeaderLine) : Bool := lengthMark.isPrefixOf (line.text.map Char.toLower)

/-- The integer behind the mark of a length; zero when there is none. -/
def toldLength (line : HeaderLine) : Int :=
  (Text.readInt? (Text.trim (line.text.drop lengthMark.length))).getD 0

end HeaderLine

/-- The length that the last line tells that tells one; zero when there is none. -/
def effectiveLength (lines : List HeaderLine) : Int :=
  ((lines.filter HeaderLine.tellsLength).getLast?.map HeaderLine.toldLength).getD 0

/-- A frame of the stream, whose body is as long as its header lines tell. -/
structure Packet where
  lines : List HeaderLine
  blank : LineEnd
  body : List UInt8
  length_body : (body.length : Int) = max 0 (effectiveLength lines)
  length_le : effectiveLength lines ≤ maxLength

namespace Packet

def octets (p : Packet) : List UInt8 :=
  p.lines.flatMap HeaderLine.octets ++ (p.blank.returns ++ lineFeed :: p.body)

/-- The body of a packet is the text of an object in UTF-8. -/
def Holds (p : Packet) (fields : Json.Fields) : Prop :=
  0 < effectiveLength p.lines ∧
    ∃ text, Text.Utf8.encode text = p.body ∧ Json.IsText text (.obj fields)

/-- A packet says the object that it holds, and the empty one when it holds none. -/
def Says (p : Packet) (message : Json.Fields) : Prop :=
  p.Holds message ∨ (∀ fields, ¬p.Holds fields) ∧ message = []

/-- No numeral in the body is too long to be converted. -/
def Converts (p : Packet) : Prop :=
  ∀ text, Text.Utf8.encode text = p.body → ¬Json.IsOverlong text

end Packet

/-- The octets of packets one behind the other. -/
def stream (packets : List Packet) : List UInt8 := packets.flatMap Packet.octets

/-- What is left of a stream when it was read from so many times. -/
def leftAfter : Nat → List UInt8 → List UInt8
  | 0, octets => octets
  | reads + 1, octets => leftAfter reads (read octets).rest

theorem carriageReturn_of_mem_returns {stop : LineEnd} {octet : UInt8}
    (h : octet ∈ stop.returns) : octet = carriageReturn := by
  cases stop with
  | feed => exact absurd h List.not_mem_nil
  | returnAndFeed => exact List.mem_singleton.mp h

theorem lineFeed_not_mem {inner : List UInt8} (hinner : ∀ octet ∈ inner, IsInner octet)
    (stop : LineEnd) : lineFeed ∉ inner ++ stop.returns := by
  intro hmem
  rcases List.mem_append.mp hmem with h | h
  · exact (hinner _ h).2 rfl
  · exact absurd (carriageReturn_of_mem_returns h) (by decide)

theorem splitLine_append {line : List UInt8} (hline : lineFeed ∉ line) (rest : List UInt8) :
    splitLine (line ++ lineFeed :: rest) = (line, rest) := by
  have hkeep : ∀ octet ∈ line, (octet != lineFeed) = true := by
    intro octet hmem
    exact bne_iff_ne.mpr fun heq => hline (heq ▸ hmem)
  rw [splitLine, List.takeWhile_append_of_pos hkeep, List.dropWhile_append_of_pos hkeep]
  simp

/-- A line that the stream ends in the middle of. -/
theorem splitLine_of_not_mem {line : List UInt8} (hline : lineFeed ∉ line) :
    splitLine line = (line, []) := by
  have hkeep : ∀ octet ∈ line, (octet != lineFeed) = true := by
    intro octet hmem
    exact bne_iff_ne.mpr fun heq => hline (heq ▸ hmem)
  have htake := @List.takeWhile_append_of_pos _ _ line [] hkeep
  have hdrop := @List.dropWhile_append_of_pos _ _ line [] hkeep
  simp only [List.append_nil, List.takeWhile_nil, List.dropWhile_nil] at htake hdrop
  rw [splitLine, htake, hdrop, List.drop_nil]

theorem headerText_append {inner : List UInt8} (hinner : ∀ octet ∈ inner, IsInner octet)
    (stop : LineEnd) : headerText (inner ++ stop.returns) = inner.map headerChar := by
  have hreturns : ∀ octet ∈ stop.returns.reverse,
      (octet == carriageReturn || octet == lineFeed) = true := by
    intro octet hmem
    rw [carriageReturn_of_mem_returns (List.mem_reverse.mp hmem)]
    rfl
  have hkeep : inner.reverse.dropWhile
      (fun octet => octet == carriageReturn || octet == lineFeed) = inner.reverse := by
    cases hcases : inner.reverse with
    | nil => rfl
    | cons octet more =>
        have hmem : octet ∈ inner := by
          rw [← List.mem_reverse, hcases]
          exact List.mem_cons_self
        simp [(hinner octet hmem).1, (hinner octet hmem).2]
  rw [headerText, List.reverse_append, List.dropWhile_append_of_pos hreturns, hkeep,
    List.reverse_reverse]

/-- A line that begins with something else than a line end is not blank. -/
theorem headerText_ne_nil {octet : UInt8} (hoctet : IsInner octet) (more : List UInt8) :
    headerText (octet :: more) ≠ [] := by
  have hstop : (octet == carriageReturn || octet == lineFeed) = false := by
    simp [hoctet.1, hoctet.2]
  rw [headerText, Ne, List.map_eq_nil_iff, List.reverse_eq_nil_iff, List.reverse_cons,
    List.dropWhile_append]
  split
  · simp [hstop]
  · simp

theorem headers?_of_ne_nil {octets : List UInt8} (h : octets ≠ []) :
    headers? octets =
      if headerText (splitLine octets).1 = [] then some ([], (splitLine octets).2)
      else (headers? (splitLine octets).2).map fun found =>
        (headerText (splitLine octets).1 :: found.1, found.2) := by
  obtain ⟨octet, rest, rfl⟩ := List.exists_cons_of_ne_nil h
  rw [headers?]

theorem headers?_blank (blank : LineEnd) (rest : List UInt8) :
    headers? (blank.returns ++ lineFeed :: rest) = some ([], rest) := by
  have hnone : ∀ octet ∈ ([] : List UInt8), IsInner octet := by simp
  have hsplit := splitLine_append (lineFeed_not_mem hnone blank) rest
  have htext := headerText_append hnone blank
  simp only [List.nil_append, List.map_nil] at hsplit htext
  rw [headers?_of_ne_nil (by simp), hsplit, if_pos htext]

theorem headers?_line (line : HeaderLine) (rest : List UInt8) :
    headers? (line.octets ++ rest) =
      (headers? rest).map fun found => (line.text :: found.1, found.2) := by
  have hsplit := splitLine_append (lineFeed_not_mem line.isInner line.stop) rest
  have htext := headerText_append line.isInner line.stop
  have hne : line.inner.map headerChar ≠ [] := by
    rw [Ne, List.map_eq_nil_iff]
    exact line.inner_ne_nil
  rw [HeaderLine.octets, List.append_assoc, List.singleton_append,
    headers?_of_ne_nil (by simp), hsplit, htext, if_neg hne]
  rfl

/-- The header lines of a packet are found, and then its body. -/
theorem headers?_lines (lines : List HeaderLine) (blank : LineEnd) (rest : List UInt8) :
    headers? (lines.flatMap HeaderLine.octets ++ (blank.returns ++ lineFeed :: rest)) =
      some (lines.map HeaderLine.text, rest) := by
  induction lines with
  | nil => exact headers?_blank blank rest
  | cons line more ih =>
      rw [List.flatMap_cons, List.append_assoc, headers?_line, ih]
      rfl

theorem bodyLength_lines (lines : List HeaderLine) :
    bodyLength (lines.map HeaderLine.text) = effectiveLength lines := by
  have htold : (lines.map HeaderLine.text).filterMap lengthIn? =
      (lines.filter HeaderLine.tellsLength).map HeaderLine.toldLength := by
    induction lines with
    | nil => rfl
    | cons line more ih =>
        rw [List.map_cons, List.filterMap_cons, List.filter_cons, ih]
        by_cases htells : line.tellsLength = true
        · have hlength : lengthIn? line.text = some line.toldLength := if_pos htells
          simp [hlength, htells]
        · have hlength : lengthIn? line.text = none := if_neg htells
          simp [hlength, htells]
  rw [bodyLength, effectiveLength, htold, List.getLast?_map]

/-- A stream may end inside its first line, or behind it. -/
theorem prefix_line {line more cut : List UInt8} (hcut : cut <+: line ++ lineFeed :: more) :
    cut <+: line ∨ ∃ left, cut = line ++ lineFeed :: left ∧ left <+: more := by
  have hline : line ++ [lineFeed] <+: line ++ lineFeed :: more :=
    ⟨more, by rw [List.append_assoc, List.singleton_append]⟩
  rcases List.prefix_or_prefix_of_prefix hcut hline with hshort | ⟨left, rfl⟩
  · rcases List.prefix_concat_iff.mp hshort with rfl | hinside
    · exact Or.inr ⟨[], rfl, List.nil_prefix⟩
    · exact Or.inl hinside
  · rw [List.append_assoc, List.singleton_append] at hcut ⊢
    rw [List.prefix_append_right_inj, List.cons_prefix_cons] at hcut
    exact Or.inr ⟨left, rfl, hcut.2⟩

theorem headers?_of_blank_start {blank : LineEnd} {cut : List UInt8}
    (hcut : cut <+: blank.returns) : headers? cut = none ∨ headers? cut = some ([], []) := by
  cases blank with
  | feed => exact Or.inl (by rw [List.prefix_nil.mp hcut, headers?])
  | returnAndFeed =>
      have hsplit : cut <+: [] ++ [carriageReturn] := hcut
      rcases List.prefix_concat_iff.mp hsplit with rfl | hnil
      · exact Or.inr (by rw [headers?_of_ne_nil (by simp)]; rfl)
      · exact Or.inl (by rw [List.prefix_nil.mp hnil, headers?])

theorem headers?_of_line_start {line : HeaderLine} {cut : List UInt8}
    (hcut : cut <+: line.inner ++ line.stop.returns) : headers? cut = none := by
  obtain ⟨first, more, hinner⟩ := List.exists_cons_of_ne_nil line.inner_ne_nil
  have hline := lineFeed_not_mem line.isInner line.stop
  cases cut with
  | nil => rw [headers?]
  | cons octet rest =>
      have hfeed : lineFeed ∉ octet :: rest := fun hmem => hline (hcut.subset hmem)
      have hoctet : IsInner octet := by
        rw [hinner, List.cons_append, List.cons_prefix_cons] at hcut
        rw [hcut.1]
        exact line.isInner first (hinner ▸ List.mem_cons_self)
      rw [headers?_of_ne_nil (by simp), splitLine_of_not_mem hfeed,
        if_neg (headerText_ne_nil hoctet rest), headers?]
      rfl

/-- Where a stream may end that ends inside a packet: inside its header lines, or where
its body is too short. -/
theorem headers?_of_proper_start {lines : List HeaderLine} {blank : LineEnd}
    {body cut : List UInt8} (hbody : body ≠ [])
    (hcut : cut <+: lines.flatMap HeaderLine.octets ++ (blank.returns ++ lineFeed :: body))
    (hproper : cut ≠ lines.flatMap HeaderLine.octets ++ (blank.returns ++ lineFeed :: body)) :
    headers? cut = none ∨
      ∃ rest, rest.length < body.length ∧
        headers? cut = some (lines.map HeaderLine.text, rest) := by
  induction lines generalizing cut with
  | nil =>
      rcases prefix_line hcut with hinside | ⟨left, rfl, hleft⟩
      · rcases headers?_of_blank_start hinside with hnone | hsome
        · exact Or.inl hnone
        · exact Or.inr ⟨[], List.length_pos_iff.mpr hbody, hsome⟩
      · have hshort : left.length < body.length := by
          refine Nat.lt_of_le_of_ne hleft.length_le fun heq => hproper ?_
          rw [hleft.eq_of_length heq]
          rfl
        exact Or.inr ⟨left, hshort, headers?_blank blank left⟩
  | cons line more ih =>
      have hoctets : ∀ rest : List UInt8,
          line.octets ++ rest = (line.inner ++ line.stop.returns) ++ lineFeed :: rest := by
        intro rest
        rw [HeaderLine.octets, List.append_assoc, List.singleton_append]
      rw [List.flatMap_cons, List.append_assoc, hoctets] at hcut hproper
      rcases prefix_line hcut with hinside | ⟨left, rfl, hleft⟩
      · exact Or.inl (headers?_of_line_start hinside)
      · have hleft' : left ≠ more.flatMap HeaderLine.octets ++
            (blank.returns ++ lineFeed :: body) := fun heq => hproper (by rw [heq])
        rw [← hoctets, headers?_line]
        rcases ih hleft hleft' with hnone | ⟨rest, hrest, hsome⟩
        · exact Or.inl (by rw [hnone]; rfl)
        · exact Or.inr ⟨rest, hrest, by rw [hsome]; rfl⟩

theorem read_nil : read [] = ⟨.ok none, [], []⟩ := by
  rw [read, headers?]

theorem read_of_headers {octets : List UInt8} {lines : List HeaderLine} {rest : List UInt8}
    (hheaders : headers? octets = some (lines.map HeaderLine.text, rest))
    (hpositive : 0 < effectiveLength lines) (hlength : effectiveLength lines ≤ maxLength) :
    read octets =
      if rest.length < (effectiveLength lines).toNat then ⟨.ok none, [], []⟩
      else readBody (rest.take (effectiveLength lines).toNat)
        (rest.drop (effectiveLength lines).toNat) := by
  have hshort : (rest.take (effectiveLength lines).toNat).length < (effectiveLength lines).toNat ↔
      rest.length < (effectiveLength lines).toNat := by
    rw [List.length_take]
    omega
  simp only [read, hheaders, bodyLength_lines, if_neg (Int.not_le.mpr hpositive),
    if_neg (Int.not_lt.mpr hlength), hshort]

/-- A body is read as the object it is the text of, and passed over when there is none,
unless a numeral in it is too long to be converted. -/
theorem outcome_readBody_cases (body rest : List UInt8) :
    (∃ text fields, Text.Utf8.encode text = body ∧ Json.parse text = .ok (.obj fields) ∧
      (readBody body rest).outcome = .ok (some fields)) ∨
    (∃ text tooLong, Text.Utf8.encode text = body ∧
      Json.parse text = .error (.numeral tooLong)) ∨
    (∀ text fields, Text.Utf8.encode text = body → Json.parse text ≠ .ok (.obj fields)) ∧
      (readBody body rest).outcome = .ok (some []) := by
  unfold readBody
  split
  next cause hdecode =>
      refine Or.inr (Or.inr ⟨?_, rfl⟩)
      intro text fields hencode
      rw [Text.Utf8.decode_eq_ok_iff.mpr hencode] at hdecode
      exact nomatch hdecode
  next text hdecode =>
      have hencode := Text.Utf8.decode_eq_ok_iff.mp hdecode
      -- No other text has this body, so what it is parsed as decides what the body holds.
      have hparsed : ∀ other fields, Text.Utf8.encode other = body →
          Json.parse other = .ok (.obj fields) → Json.parse text = .ok (.obj fields) := by
        intro other fields hother hparse
        have hsame := hdecode.symm.trans (Text.Utf8.decode_eq_ok_iff.mpr hother)
        rw [Except.ok.inj hsame]
        exact hparse
      split
      next tooLong hparse => exact Or.inr (Or.inl ⟨text, tooLong, hencode, hparse⟩)
      next cause _ hparse =>
          refine Or.inr (Or.inr ⟨fun other fields hother hobject => ?_, rfl⟩)
          rw [hparsed other fields hother hobject] at hparse
          exact nomatch hparse
      next fields hparse => exact Or.inl ⟨text, fields, hencode, hparse, rfl⟩
      next value hother hparse =>
          refine Or.inr (Or.inr ⟨fun other fields hencoded hobject => ?_, rfl⟩)
          rw [hparsed other fields hencoded hobject] at hparse
          exact hother fields (Except.ok.inj hparse).symm

/-- A packet holds at most one object. -/
theorem Packet.Holds.unique {p : Packet} {fields others : Json.Fields} (hholds : p.Holds fields)
    (hothers : p.Holds others) : fields = others := by
  obtain ⟨-, text, hencode, htext⟩ := hholds
  obtain ⟨-, other, hother, hotherText⟩ := hothers
  have hsame : text = other := by
    rw [← Text.Utf8.decode_eq_ok_iff] at hencode hother
    exact Except.ok.inj (hencode.symm.trans hother)
  rw [hsame] at htext
  exact Json.obj.inj (htext.unique hotherText)

theorem Packet.exists_said (p : Packet) : ∃ message, p.Says message := by
  by_cases hholds : ∃ fields, p.Holds fields
  · obtain ⟨fields, hfields⟩ := hholds
    exact ⟨fields, Or.inl hfields⟩
  · exact ⟨[], Or.inr ⟨fun fields hfields => hholds ⟨fields, hfields⟩, rfl⟩⟩

/-- The body of a packet is read as the object that the packet holds. -/
theorem outcome_readBody {p : Packet} (hpositive : 0 < effectiveLength p.lines)
    (hconverts : p.Converts) {message : Json.Fields} (hsaid : p.Says message)
    (rest : List UInt8) : (readBody p.body rest).outcome = .ok (some message) := by
  rcases outcome_readBody_cases p.body rest with
    ⟨text, fields, hencode, hparse, houtcome⟩ | ⟨text, tooLong, hencode, hparse⟩ |
    ⟨hnone, houtcome⟩
  · have hholds : p.Holds fields := ⟨hpositive, text, hencode, Json.parse_eq_ok_iff.mp hparse⟩
    rw [houtcome]
    rcases hsaid with hmessage | ⟨hempty, -⟩
    · rw [hholds.unique hmessage]
    · exact absurd hholds (hempty fields)
  · exact absurd (Json.exists_parse_eq_numeral_iff.mp ⟨tooLong, hparse⟩) (hconverts text hencode)
  · rcases hsaid with ⟨-, text, hencode, htext⟩ | ⟨-, rfl⟩
    · exact absurd (Json.parse_eq_ok_iff.mpr htext) (hnone text message hencode)
    · exact houtcome

/-- Numerals are converted in a body that is read without a fault. -/
theorem Packet.converts_of_isOk {p : Packet}
    (hread : (readBody p.body []).outcome.isOk = true) : p.Converts := by
  intro text hencode hoverlong
  obtain ⟨tooLong, hparse⟩ := Json.exists_parse_eq_numeral_iff.mpr hoverlong
  rw [readBody, Text.Utf8.decode_eq_ok_iff.mpr hencode] at hread
  simp only [hparse] at hread
  exact nomatch hread

theorem headers?_packet (p : Packet) (rest : List UInt8) :
    headers? (p.octets ++ rest) = some (p.lines.map HeaderLine.text, p.body ++ rest) := by
  rw [Packet.octets, List.append_assoc, List.append_assoc, List.cons_append]
  exact headers?_lines p.lines p.blank (p.body ++ rest)

/-- A packet with a body is read by its body. -/
theorem read_packet_of_pos {p : Packet} (hpositive : 0 < effectiveLength p.lines)
    (rest : List UInt8) : read (p.octets ++ rest) = readBody p.body rest := by
  have hlength := p.length_body
  have hbody : (effectiveLength p.lines).toNat = p.body.length := by omega
  have henough : ¬(p.body ++ rest).length < p.body.length := by
    rw [List.length_append]
    omega
  rw [read_of_headers (headers?_packet p rest) hpositive p.length_le, hbody, if_neg henough,
    List.take_left, List.drop_left]

/-- A packet is read up to its end. -/
theorem rest_read_packet (p : Packet) (rest : List UInt8) :
    (read (p.octets ++ rest)).rest = rest := by
  by_cases hpositive : 0 < effectiveLength p.lines
  · rw [read_packet_of_pos hpositive]
    exact rest_readBody p.body rest
  · have hlength := p.length_body
    have hbody : p.body = [] := by
      rw [← List.length_eq_zero_iff]
      omega
    simp only [read, headers?_packet, bodyLength_lines, if_pos (Int.not_lt.mp hpositive), hbody,
      List.nil_append, rest_passedOver]

/-- What is read of a packet is its message. -/
theorem outcome_read_packet {p : Packet} (hconverts : p.Converts) {message : Json.Fields}
    (hsaid : p.Says message) (rest : List UInt8) :
    (read (p.octets ++ rest)).outcome = .ok (some message) := by
  by_cases hpositive : 0 < effectiveLength p.lines
  · rw [read_packet_of_pos hpositive]
    exact outcome_readBody hpositive hconverts hsaid rest
  · obtain rfl : message = [] := by
      rcases hsaid with ⟨hholds, -⟩ | ⟨-, hempty⟩
      · exact absurd hholds hpositive
      · exact hempty
    simp only [read, headers?_packet, bodyLength_lines, if_pos (Int.not_lt.mp hpositive)]
    rfl

/-- A stream that ends inside a packet with a body has no further message. -/
theorem outcome_read_of_proper_start {p : Packet} (hpositive : 0 < effectiveLength p.lines)
    {cut : List UInt8} (hcut : cut <+: p.octets) (hproper : cut ≠ p.octets) :
    (read cut).outcome = .ok none := by
  have hlength := p.length_body
  have hbody : p.body ≠ [] := by
    rw [← List.length_pos_iff]
    omega
  rcases headers?_of_proper_start hbody hcut hproper with hnone | ⟨rest, hrest, hheaders⟩
  · simp only [read, hnone]
  · rw [read_of_headers hheaders hpositive p.length_le, if_pos (by omega)]

/-- When each item is read up to its end, each read takes the octets of one item. -/
theorem leftAfter_flatMap {α : Type} (octets : α → List UInt8) {items : List α}
    (hread : ∀ item ∈ items, ∀ rest, (read (octets item ++ rest)).rest = rest)
    (rest : List UInt8) {reads : Nat} (hreads : reads ≤ items.length) :
    leftAfter reads (items.flatMap octets ++ rest) =
      (items.drop reads).flatMap octets ++ rest := by
  induction reads generalizing items with
  | zero => rfl
  | succ reads ih =>
      cases items with
      | nil => exact absurd hreads (by simp)
      | cons item more =>
          have hmore := ih (fun other hother => hread other (List.mem_cons_of_mem item hother))
            (Nat.le_of_succ_le_succ hreads)
          rw [leftAfter, List.flatMap_cons, List.append_assoc, hread item List.mem_cons_self, hmore,
            List.drop_succ_cons]

/-- What is left before a read is what it takes and what is left behind it. -/
theorem leftAfter_eq_append {α : Type} (octets : α → List UInt8) {items : List α}
    (hread : ∀ item ∈ items, ∀ rest, (read (octets item ++ rest)).rest = rest)
    (rest : List UInt8) {i : Nat} (hi : i < items.length) :
    leftAfter i (items.flatMap octets ++ rest) =
      octets items[i] ++ leftAfter (i + 1) (items.flatMap octets ++ rest) := by
  rw [leftAfter_flatMap octets hread rest (Nat.le_of_lt hi), leftAfter_flatMap octets hread rest hi,
    ← List.getElem_cons_drop hi, List.flatMap_cons, List.append_assoc]

/-- All items are taken by as many reads. -/
theorem leftAfter_length {α : Type} (octets : α → List UInt8) {items : List α}
    (hread : ∀ item ∈ items, ∀ rest, (read (octets item ++ rest)).rest = rest)
    (rest : List UInt8) : leftAfter items.length (items.flatMap octets ++ rest) = rest := by
  rw [leftAfter_flatMap octets hread rest (Nat.le_refl _), List.drop_length]
  rfl

/-- Whatever the bodies of packets hold, each read takes one packet and gives its message;
where the stream ends inside a packet with a body, the next read gives none. -/
theorem reads_stay_in_step (packets : List Packet)
    (hconverts : ∀ packet ∈ packets, packet.Converts) (tail : Packet)
    (hpositive : 0 < effectiveLength tail.lines) (cut : List UInt8) (hcut : cut <+: tail.octets)
    (hproper : cut ≠ tail.octets) :
    let left := fun reads => leftAfter reads (stream packets ++ cut)
    (∀ i (hi : i < packets.length), left i = packets[i].octets ++ left (i + 1) ∧
      (∃ message, packets[i].Says message) ∧
      ∀ message, packets[i].Says message → (read (left i)).outcome = .ok (some message)) ∧
    left packets.length = cut ∧ (read (left packets.length)).outcome = .ok none := by
  intro left
  have hread : ∀ packet ∈ packets, ∀ rest, (read (packet.octets ++ rest)).rest = rest :=
    fun packet _ rest => rest_read_packet packet rest
  have hend : left packets.length = cut := leftAfter_length Packet.octets hread cut
  refine ⟨fun i hi => ?_, hend, ?_⟩
  · have hnext : left i = packets[i].octets ++ left (i + 1) :=
      leftAfter_eq_append Packet.octets hread cut hi
    refine ⟨hnext, packets[i].exists_said, fun message hsaid => ?_⟩
    rw [hnext]
    exact outcome_read_packet (hconverts _ (List.getElem_mem hi)) hsaid _
  · rw [hend]
    exact outcome_read_of_proper_start hpositive hcut hproper

/-- A packet with two lengths, of which the last counts, and a body that is no UTF-8. -/
def garbledPacket : Packet where
  lines :=
    [⟨Text.Utf8.encode "Content-Length: 40".toList, .returnAndFeed, by decide, by decide +kernel⟩,
      ⟨Text.Utf8.encode "content-LENGTH:+2".toList, .feed, by decide, by decide +kernel⟩]
  blank := .feed
  body := [255, 10]
  length_body := by decide
  length_le := by decide

/-- A packet whose body looks like the header of another. -/
def nestedPacket : Packet where
  lines := [⟨Text.Utf8.encode "Content-Length: 21".toList, .feed, by decide, by decide +kernel⟩]
  blank := .returnAndFeed
  body := Text.Utf8.encode "Content-Length: 9\r\n\r\n".toList
  length_body := by decide
  length_le := by decide

/-- A packet with an object. -/
def objectPacket : Packet where
  lines :=
    [⟨Text.Utf8.encode "Content-Length: 8".toList, .returnAndFeed, by decide, by decide +kernel⟩]
  blank := .returnAndFeed
  body := Text.Utf8.encode ['\x7b', '\x22', 'é', '\x22', ':', '1', '\x7d']
  length_body := by decide
  length_le := by decide

/-- A packet whose object holds an escaped surrogate that is part of no pair. -/
def surrogatePacket : Packet where
  lines := [⟨Text.Utf8.encode "content-length:14".toList, .feed, by decide, by decide +kernel⟩]
  blank := .feed
  body := Text.Utf8.encode
    ['\x7b', '\x22', 'a', '\x22', ':', '\x22', '\\', 'u', 'd', '8', '0', '0', '\x22', '\x7d']
  length_body := by decide
  length_le := by decide

/-- An object of one field, written without blanks. -/
theorem isText_field {name cs : List Char} {points : List CodePoint} {value : Json}
    (hname : Json.StringText name points) (hvalue : Json.ValueText cs value) :
    Json.IsText ('\x7b' :: '\x22' :: (name ++ '\x22' :: ':' :: (cs ++ ['\x7d'])))
      (.obj [(⟨points⟩, value)]) := by
  have hblank : Json.IsSpacing [] := fun _ hc => absurd hc List.not_mem_nil
  have hfields := Json.FieldsText.last (.mk hname hblank hblank) hvalue hblank
  have htext := Json.IsText.mk hblank (.obj hblank hfields) hblank
  simp only [List.append_assoc, List.cons_append, List.nil_append, List.append_nil] at htext
  exact htext

theorem holds_objectPacket : objectPacket.Holds [("é", .int 1)] := by
  have hname : Json.StringText ['é'] [.char 'é'] :=
    .plain (by decide) (by decide) (by decide) .nil
  have hone : Json.IsWholePart ['1'] :=
    ⟨⟨List.cons_ne_nil _ _, List.forall_mem_singleton.mpr rfl⟩, fun more heq => nomatch heq⟩
  have hvalue : Json.ValueText ['1'] (.int 1) :=
    .numeral (@Json.NumeralText.int false _ hone (by decide))
  exact ⟨by decide, _, rfl, isText_field hname hvalue⟩

theorem holds_surrogatePacket : surrogatePacket.Holds [("a", .str ⟨[.lone 0]⟩)] := by
  have hname : Json.StringText ['a'] [.char 'a'] :=
    .plain (by decide) (by decide) (by decide) .nil
  have hunit : Json.UnitText ['d', '8', '0', '0'] 0xd800 :=
    @Json.UnitText.mk _ _ _ _ 13 8 0 0 (by decide) (by decide) (by decide) (by decide)
  have hpoint : Json.StringText ['\\', 'u', 'd', '8', '0', '0'] [.lone 0] :=
    .alone hunit rfl (fun _ _ _ heq => nomatch heq) .nil
  exact ⟨by decide, _, rfl, isText_field hname (.str hpoint)⟩

theorem garbled_packets_stay_in_step :
    let packets := [garbledPacket, nestedPacket, objectPacket, surrogatePacket]
    let cut := objectPacket.octets.take 27
    let left := fun reads => leftAfter reads (stream packets ++ cut)
    (∀ i (hi : i < packets.length), left i = packets[i].octets ++ left (i + 1) ∧
      (∃ message, packets[i].Says message) ∧
      ∀ message, packets[i].Says message → (read (left i)).outcome = .ok (some message)) ∧
    left packets.length = cut ∧ (read (left packets.length)).outcome = .ok none ∧
    (read (left 0)).outcome = .ok (some []) ∧ (read (left 1)).outcome = .ok (some []) ∧
    (read (left 2)).outcome = .ok (some [("é", .int 1)]) ∧
    (read (left 3)).outcome = .ok (some [("a", .str ⟨[.lone 0]⟩)]) := by
  have hconverts : ∀ packet ∈ [garbledPacket, nestedPacket, objectPacket, surrogatePacket],
      packet.Converts := by
    intro packet hmem
    simp only [List.mem_cons, List.not_mem_nil, or_false] at hmem
    rcases hmem with rfl | rfl | rfl | rfl
    all_goals exact Packet.converts_of_isOk (by decide +kernel)
  intro packets cut left
  have hsteps := reads_stay_in_step packets hconverts objectPacket (by decide) cut
    (List.take_prefix _ _) (by decide +kernel)
  -- What is read of a packet without an object is empty, and there is some message.
  have hempty : ∀ i (hi : i < packets.length),
      ((read (left i)).outcome.toOption.bind id).map List.isEmpty = some true →
        (read (left i)).outcome = .ok (some []) := by
    intro i hi hnone
    obtain ⟨-, ⟨message, hsaid⟩, hread⟩ := hsteps.1 i hi
    rw [hread message hsaid] at hnone ⊢
    rw [List.isEmpty_iff.mp (Option.some.inj hnone)]
  refine ⟨hsteps.1, hsteps.2.1, hsteps.2.2, hempty 0 (by decide) (by decide +kernel),
    hempty 1 (by decide) (by decide +kernel), ?_, ?_⟩
  · exact (hsteps.1 2 (by decide)).2.2 _ (Or.inl holds_objectPacket)
  · exact (hsteps.1 3 (by decide)).2.2 _ (Or.inl holds_surrogatePacket)

end EditorBridge.Frame
