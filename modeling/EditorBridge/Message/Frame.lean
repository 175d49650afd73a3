/-
Messages from the editor.  A message comes in a frame: header lines, a blank line,
and a body of as many octets as the last length header says.  A frame that makes
no sense is passed over and noted in the log, so that the next one is still found.
The stream is finite and at hand as a whole: to read some octets gives as many as are
asked for, or all that are left.
-/
import EditorBridge.Fault
import EditorBridge.Json.Parser
import EditorBridge.Log
import EditorBridge.Text.Utf8

namespace EditorBridge.Frame

def lineFeed : UInt8 := 10

/-- The octet that may stand in front of the end of a line. -/
def carriageReturn : UInt8 := 13

/-- The character of a header octet; octets beyond ASCII stand for no character. -/
def headerChar (octet : UInt8) : Char :=
  if octet < 128 then Char.ofNat octet.toNat else '\ufffd'

/-- A header line without the line ends behind it. -/
def headerText (line : List UInt8) : List Char :=
  (line.reverse.dropWhile fun octet => octet == carriageReturn || octet == lineFeed).reverse.map
    headerChar

/-- The first line of a stream, and what is left behind its end. -/
def splitLine (octets : List UInt8) : List UInt8 × List UInt8 :=
  (octets.takeWhile (· != lineFeed), (octets.dropWhile (· != lineFeed)).drop 1)

theorem length_splitLine (octet : UInt8) (rest : List UInt8) :
    (splitLine (octet :: rest)).2.length < (octet :: rest).length := by
  have hdrop : ∀ l : List UInt8, (l.dropWhile (· != lineFeed)).length ≤ l.length :=
    fun l => (List.dropWhile_sublist _).length_le
  simp only [splitLine, List.length_drop, List.dropWhile_cons]
  split
  · have := hdrop rest
    simp only [List.length_cons]
    omega
  · simp

/-- The header lines up to the blank one, and what is left behind that; nothing
when the stream ends first. -/
def headers? : List UInt8 → Option (List (List Char) × List UInt8)
  | [] => none
  | octet :: rest =>
      if headerText (splitLine (octet :: rest)).1 = [] then
        some ([], (splitLine (octet :: rest)).2)
      else (headers? (splitLine (octet :: rest)).2).map fun found =>
        (headerText (splitLine (octet :: rest)).1 :: found.1, found.2)
termination_by octets => octets.length
decreasing_by exact length_splitLine octet rest

theorem length_of_headers? {octets rest : List UInt8} {lines : List (List Char)}
    (h : headers? octets = some (lines, rest)) : rest.length < octets.length := by
  fun_induction headers? octets generalizing lines with
  | case1 => simp at h
  | case2 octet tail hblank =>
      have := length_splitLine octet tail
      rw [Option.some.injEq, Prod.mk.injEq] at h
      rw [← h.2]
      exact this
  | case3 octet tail hblank ih =>
      have := length_splitLine octet tail
      obtain ⟨found, hfound, heq⟩ := Option.map_eq_some_iff.mp h
      rw [Prod.mk.injEq] at heq
      have hrest := @ih found.1 (by rw [hfound, ← heq.2])
      omega

/-- How a header starts that tells the length of the body. -/
def lengthMark : List Char := "content-length:".toList

/-- The length that a header tells: zero when it is no number, nothing when it is
another header. -/
def lengthIn? (header : List Char) : Option Int :=
  if lengthMark.isPrefixOf (header.map Char.toLower) then
    some ((Text.readInt? (Text.trim (header.drop lengthMark.length))).getD 0)
  else none

/-- The length of the body; of several headers the last one counts. -/
def bodyLength (headers : List (List Char)) : Int :=
  ((headers.filterMap lengthIn?).getLast?).getD 0

/-- The longest body that can be asked for. -/
def maxLength : Int := (Number.twoTo 63 : Int) - 1

/-- What came of reading a frame: a message, an empty one for a frame passed over,
nothing at the end of the stream, or a fault; then what is left of the stream and
what the log says. -/
structure Reading where
  outcome : Except Fault (Option Json.Fields)
  rest : List UInt8
  log : List Log.Entry := []

/-- A frame that is passed over. -/
def passedOver (rest : List UInt8) (level : Log.Level) (note : String) : Reading :=
  ⟨.ok (some []), rest, [⟨level, note⟩]⟩

def readBody (body rest : List UInt8) : Reading :=
  match Text.Utf8.decode body with
  | .error cause => passedOver rest .error ("Error decoding message body: " ++ cause.message)
  | .ok text =>
      match Json.parse text with
      | .error (.numeral tooLong) => ⟨.error (.numeral tooLong), rest, []⟩
      | .error cause => passedOver rest .error ("Error decoding message body: " ++ cause.message)
      | .ok (.obj fields) => ⟨.ok (some fields), rest, []⟩
      | .ok value => passedOver rest .error ("Ignoring non-object message: " ++ value.literal)

def read (octets : List UInt8) : Reading :=
  match headers? octets with
  | none => ⟨.ok none, [], []⟩
  | some (headers, rest) =>
      let length := bodyLength headers
      if length ≤ 0 then
        passedOver rest .warning
          ("No Content-Length in headers: " ++ Text.quotedList (headers.map Text.ofChars))
      else if maxLength < length then ⟨.error .frameTooLong, rest, []⟩
      else if (rest.take length.toNat).length < length.toNat then ⟨.ok none, [], []⟩
      else readBody (rest.take length.toNat) (rest.drop length.toNat)

@[simp] theorem rest_passedOver (rest : List UInt8) (level : Log.Level) (note : String) :
    (passedOver rest level note).rest = rest := rfl

theorem rest_readBody (body rest : List UInt8) : (readBody body rest).rest = rest := by
  unfold readBody
  split
  · rfl
  · split <;> rfl

/-- Every frame takes something from the stream. -/
theorem length_rest_read {octets : List UInt8} {fields : Json.Fields}
    (h : (read octets).outcome = .ok (some fields)) :
    (read octets).rest.length < octets.length := by
  cases hheaders : headers? octets with
  | none => simp [read, hheaders] at h
  | some found =>
      obtain ⟨headers, rest⟩ := found
      have hlt := length_of_headers? hheaders
      simp only [read, hheaders] at h ⊢
      split
      · simpa using hlt
      · split
        · exact hlt
        · split
          · simp_all
          · rw [rest_readBody, List.length_drop]
            omega

end EditorBridge.Frame
