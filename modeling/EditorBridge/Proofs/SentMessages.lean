/-
Reading undoes writing.  What is sent is a packet whose body is the text of an envelope,
so reading the octets of messages one behind the other gives their envelopes back.
-/
import EditorBridge.Message.Outgoing
import EditorBridge.Proofs.Framing
import EditorBridge.Proofs.JsonRoundTrip
import EditorBridge.Proofs.Outcomes
import EditorBridge.Proofs.WritableMessages

namespace EditorBridge.Outgoing

/-- What a message says can be read back. -/
def IsPlain : Outgoing → Prop
  | .response id result => id.Plain ∧ result.Plain
  | .failure id code message data =>
      id.Plain ∧ Text.IsConvertible code.natAbs ∧ Text.isWhole message.points = true ∧ data.Plain
  | .notification method params => Text.isWhole method.points = true ∧ params.Plain
  | .diagnostics uri list => (diagnosticsParams uri list).Plain
  | .alert message => Text.isWhole message.points = true

/-- The envelope of a message.  Data and parameters stand in it unless they are `null`. -/
inductive IsEnvelope : Outgoing → Json.Fields → Prop where
  | response (id result : Json) :
      IsEnvelope (.response id result)
        [("jsonrpc", .str "2.0"), ("id", id), ("result", result)]
  | failure (id : Json) (code : Int) (message : Text) :
      IsEnvelope (.failure id code message .null)
        [("jsonrpc", .str "2.0"), ("id", id),
          ("error", .obj [("code", .int code), ("message", .str message)])]
  | failureWithData (id : Json) (code : Int) (message : Text) {data : Json}
      (hdata : data ≠ .null) :
      IsEnvelope (.failure id code message data)
        [("jsonrpc", .str "2.0"), ("id", id),
          ("error", .obj [("code", .int code), ("message", .str message), ("data", data)])]
  | notification (method : Text) :
      IsEnvelope (.notification method .null)
        [("jsonrpc", .str "2.0"), ("method", .str method)]
  | notificationWithParams (method : Text) {params : Json} (hparams : params ≠ .null) :
      IsEnvelope (.notification method params)
        [("jsonrpc", .str "2.0"), ("method", .str method), ("params", params)]
  | diagnostics {uri : Text} {list : List Diagnostic} {fields : Json.Fields}
      (hfields : IsEnvelope
        (.notification "textDocument/publishDiagnostics" (diagnosticsParams uri list)) fields) :
      IsEnvelope (.diagnostics uri list) fields
  | alert {message : Text} {fields : Json.Fields}
      (hfields : IsEnvelope (.notification "window/showMessage"
        (.obj [("type", .int 1), ("message", .str message)])) fields) :
      IsEnvelope (.alert message) fields

/-- A length that can be asked for has few enough digits to be converted. -/
theorem isConvertible_of_le {n : Nat} (hn : (n : Int) ≤ Frame.maxLength) :
    Text.IsConvertible n := by
  have hlt : n < Number.twoTo 63 := by
    rw [Frame.maxLength] at hn
    omega
  have hsmall : Number.twoTo 63 ≤ Number.tenTo 20 := by decide
  exact Text.isConvertible_of_lt (Nat.lt_of_lt_of_le hlt hsmall)

theorem optionalField_null (key : Text) : optionalField key .null = [] := rfl

theorem optionalField_of_ne_null (key : Text) {value : Json} (hvalue : value ≠ .null) :
    optionalField key value = [(key, value)] := by
  cases value with
  | null => exact absurd rfl hvalue
  | _ => rfl

theorem isEnvelope_notificationFields (method : Text) (params : Json) :
    IsEnvelope (.notification method params) (notificationFields method params) := by
  by_cases hparams : params = .null
  · subst hparams
    exact .notification method
  · rw [notificationFields, optionalField_of_ne_null "params" hparams]
    exact .notificationWithParams method hparams

theorem isEnvelope_fields (message : Outgoing) : IsEnvelope message message.fields := by
  cases message with
  | response id result => exact .response id result
  | failure id code text data =>
      by_cases hdata : data = .null
      · subst hdata
        exact .failure id code text
      · rw [fields, errorFields, optionalField_of_ne_null "data" hdata]
        exact .failureWithData id code text hdata
  | notification method params => exact isEnvelope_notificationFields method params
  | diagnostics uri list => exact .diagnostics (isEnvelope_notificationFields _ _)
  | alert text => exact .alert (isEnvelope_notificationFields _ _)

/-- A field that can be read back. -/
def IsPlainField (field : Text × Json) : Prop :=
  Text.isWhole field.1.points = true ∧ field.2.Plain

theorem isPlainField_of_name (name : String) {value : Json} (hvalue : value.Plain) :
    IsPlainField (name, value) := ⟨Text.isWhole_ofString name, hvalue⟩

theorem plain_obj {fields : Json.Fields} (hdistinct : (fields.map Prod.fst).Nodup)
    (hfields : ∀ field ∈ fields, IsPlainField field) : Json.Plain (.obj fields) :=
  .obj (fun field hmem => (hfields field hmem).1) hdistinct fun field hmem => (hfields field hmem).2

theorem isPlainField_version : IsPlainField version :=
  isPlainField_of_name "jsonrpc" (.str (Text.isWhole_ofString "2.0"))

theorem plain_append_optionalField {front : Json.Fields} {key : String} {value : Json}
    (hdistinct : (front.map Prod.fst ++ [(key : Text)]).Nodup)
    (hfront : ∀ field ∈ front, IsPlainField field) (hvalue : value.Plain) :
    Json.Plain (.obj (front ++ optionalField key value)) := by
  by_cases hnull : value = .null
  · rw [hnull, optionalField_null, List.append_nil]
    exact plain_obj (hdistinct.sublist (List.sublist_append_left _ _)) hfront
  · rw [optionalField_of_ne_null key hnull]
    refine plain_obj (by rwa [List.map_append]) (List.forall_mem_append.mpr ⟨hfront, ?_⟩)
    exact List.forall_mem_singleton.mpr (isPlainField_of_name key hvalue)

theorem plain_notification {method : Text} (hmethod : Text.isWhole method.points = true)
    {params : Json} (hparams : params.Plain) :
    Json.Plain (.obj (notificationFields method params)) := by
  have hdistinct : (["jsonrpc", "method", "params"] : List Text).Nodup := by decide
  refine plain_append_optionalField hdistinct ?_ hparams
  simp only [List.forall_mem_cons]
  exact ⟨isPlainField_version, isPlainField_of_name "method" (.str hmethod), by simp⟩

/-- What can be read back stays so in its envelope. -/
theorem plain_fields {message : Outgoing} (hplain : message.IsPlain) :
    Json.Plain (.obj message.fields) := by
  cases message with
  | response id result =>
      have hdistinct : (["jsonrpc", "id", "result"] : List Text).Nodup := by decide
      refine plain_obj hdistinct ?_
      simp only [fields, List.forall_mem_cons]
      exact ⟨isPlainField_version, isPlainField_of_name "id" hplain.1,
        isPlainField_of_name "result" hplain.2, by simp⟩
  | failure id code text data =>
      have hdistinct : (["jsonrpc", "id", "error"] : List Text).Nodup := by decide
      have hkeys : (["code", "message", "data"] : List Text).Nodup := by decide
      obtain ⟨hid, hcode, htext, hdata⟩ := hplain
      have herror : Json.Plain (.obj
          (([("code", .int code), ("message", .str text)] : Json.Fields)
            ++ optionalField "data" data)) := by
        refine plain_append_optionalField hkeys ?_ hdata
        simp only [List.forall_mem_cons]
        exact ⟨isPlainField_of_name "code" (.int hcode),
          isPlainField_of_name "message" (.str htext), by simp⟩
      refine plain_obj hdistinct ?_
      simp only [fields, List.forall_mem_cons]
      exact ⟨isPlainField_version, isPlainField_of_name "id" hid,
        isPlainField_of_name "error" herror, by simp⟩
  | notification method params => exact plain_notification hplain.1 hplain.2
  | diagnostics uri list => exact plain_notification (Text.isWhole_ofString _) hplain
  | alert text =>
      have hdistinct : (["type", "message"] : List Text).Nodup := by decide
      refine plain_notification (Text.isWhole_ofString _) (plain_obj hdistinct ?_)
      simp only [List.forall_mem_cons]
      exact ⟨isPlainField_of_name "type" (.int (isConvertible_of_le (by decide))),
        isPlainField_of_name "message" (.str hplain), by simp⟩

/-- A character of a header line: printable and of ASCII. -/
def IsHeaderChar (c : Char) : Prop := 0x20 ≤ c.toNat ∧ c.toNat < 0x7f

instance (c : Char) : Decidable (IsHeaderChar c) :=
  inferInstanceAs (Decidable (0x20 ≤ c.toNat ∧ c.toNat < 0x7f))

/-- A character of a header line is one octet, which stands for it. -/
theorem utf8EncodeChar_of_isHeaderChar {c : Char} (hc : IsHeaderChar c) :
    ∃ octet, String.utf8EncodeChar c = [octet] ∧ Frame.IsInner octet ∧
      Frame.headerChar octet = c := by
  have hsmall : c.toNat ≤ 0x7f := Nat.le_of_lt hc.2
  have hoctet := Text.Utf8.toNat_ofNat_of_lt (n := c.toNat) (by omega)
  refine ⟨UInt8.ofNat c.toNat, ?_, ⟨?_, ?_⟩, ?_⟩
  · have hsame : c.val.toNat = c.toNat := rfl
    rw [String.utf8EncodeChar.eq_1, hsame, if_pos hsmall]
  · intro heq
    rw [heq] at hoctet
    exact absurd (hoctet ▸ hc.1) (by decide)
  · intro heq
    rw [heq] at hoctet
    exact absurd (hoctet ▸ hc.1) (by decide)
  · have hascii : UInt8.ofNat c.toNat < 128 := by
      rw [UInt8.lt_iff_toNat_lt, hoctet]
      exact Nat.lt_of_le_of_lt hsmall (by decide)
    rw [Frame.headerChar, if_pos hascii, hoctet, Char.ofNat_toNat]

/-- Characters of a header line are written as octets that stand for them. -/
theorem encode_of_isHeaderChar {cs : List Char} (hcs : ∀ c ∈ cs, IsHeaderChar c) :
    (∀ octet ∈ Text.Utf8.encode cs, Frame.IsInner octet) ∧
      (Text.Utf8.encode cs).map Frame.headerChar = cs := by
  induction cs with
  | nil => exact ⟨by simp, rfl⟩
  | cons c more ih =>
      obtain ⟨hinner, htext⟩ := ih fun other hother => hcs other (List.mem_cons_of_mem c hother)
      obtain ⟨octet, hencode, hoctet, hchar⟩ :=
        utf8EncodeChar_of_isHeaderChar (hcs c List.mem_cons_self)
      rw [Text.Utf8.encode_cons, hencode, List.singleton_append, List.map_cons, hchar, htext]
      exact ⟨List.forall_mem_cons.mpr ⟨hoctet, hinner⟩, rfl⟩

/-- The text of the header line that tells a length. -/
def lengthText (n : Nat) : List Char := "Content-Length:".toList ++ ' ' :: Text.decimal n

theorem isHeaderChar_of_mem_lengthText (n : Nat) : ∀ c ∈ lengthText n, IsHeaderChar c := by
  have hmark : ∀ c ∈ "Content-Length:".toList, IsHeaderChar c := by simp [IsHeaderChar]
  have hdecimal := Text.forall_mem_decimal (p := IsHeaderChar) (by decide) n
  have hrest := List.forall_mem_cons.mpr ⟨(by decide : IsHeaderChar ' '), hdecimal⟩
  exact List.forall_mem_append.mpr ⟨hmark, hrest⟩

/-- The header line that tells a length. -/
def lengthLine (n : Nat) : Frame.HeaderLine where
  inner := Text.Utf8.encode (lengthText n)
  stop := .returnAndFeed
  inner_ne_nil := by
    intro heq
    have htext := (encode_of_isHeaderChar (isHeaderChar_of_mem_lengthText n)).2
    rw [heq] at htext
    unfold lengthText at htext
    exact absurd htext.symm (by simp)
  isInner := (encode_of_isHeaderChar (isHeaderChar_of_mem_lengthText n)).1

theorem text_lengthLine (n : Nat) : (lengthLine n).text = lengthText n :=
  (encode_of_isHeaderChar (isHeaderChar_of_mem_lengthText n)).2

theorem tellsLength_lengthLine (n : Nat) : (lengthLine n).tellsLength = true := by
  have hmark : Frame.lengthMark = "Content-Length:".toList.map Char.toLower := by decide
  rw [Frame.HeaderLine.tellsLength, text_lengthLine]
  unfold lengthText
  rw [List.map_append, ← hmark, List.isPrefixOf_iff_prefix]
  exact List.prefix_append _ _

theorem toldLength_lengthLine {n : Nat} (hn : Text.IsConvertible n) :
    (lengthLine n).toldLength = n := by
  have hlength : "Content-Length:".toList.length = Frame.lengthMark.length := by decide
  rw [Frame.HeaderLine.toldLength, text_lengthLine]
  unfold lengthText
  rw [List.drop_left' hlength, Text.readInt?_trim_decimal hn]
  rfl

/-- The length told is the length that was written. -/
theorem effectiveLength_lengthLine {n : Nat} (hn : Text.IsConvertible n) :
    Frame.effectiveLength [lengthLine n] = n := by
  rw [Frame.effectiveLength, List.filter_cons_of_pos (tellsLength_lengthLine n), List.filter_nil,
    List.getLast?_singleton, Option.map_some, toldLength_lengthLine hn]
  rfl

/-- The text of a message in characters. -/
def text (message : Outgoing) : List Char :=
  Json.printWith Json.charScript (.obj message.fields)

/-- The octets of a message in front of its header. -/
def payload (message : Outgoing) : List UInt8 := Text.Utf8.encode message.text

/-- The octets of a message with its header. -/
def wire (message : Outgoing) : List UInt8 := framed message.payload

theorem writable_of_plain {value : Json} (hplain : value.Plain) : value.Writable := by
  induction hplain with
  | null => exact .null
  | bool b => exact .bool b
  | int hdigits => exact .int hdigits
  | str hwhole => exact .str hwhole
  | arr _ ih => exact .arr ih
  | obj hkeys _ _ ih => exact .obj hkeys ih

/-- What can be read back can be written, as its text behind a header. -/
theorem octets_of_isPlain {message : Outgoing} (hplain : message.IsPlain) :
    message.octets = .ok message.wire := by
  have hwritable : message.IsWritable := writable_of_plain (plain_fields hplain)
  rw [octets_of_isWritable hwritable, body, Json.print, Json.chars_printWith]
  rfl

theorem length_payload_pos (message : Outgoing) : 0 < message.payload.length := by
  rw [payload, text, Json.printWith, Text.Utf8.encode_cons, List.length_append]
  exact Nat.lt_of_lt_of_le (by decide) (Nat.le_add_right _ _)

/-- A message as a packet of the stream. -/
def packet (message : Outgoing) (hlength : (message.payload.length : Int) ≤ Frame.maxLength) :
    Frame.Packet where
  lines := [lengthLine message.payload.length]
  blank := .returnAndFeed
  body := message.payload
  length_body := by
    rw [effectiveLength_lengthLine (isConvertible_of_le hlength)]
    omega
  length_le := by
    rw [effectiveLength_lengthLine (isConvertible_of_le hlength)]
    exact hlength

/-- What is sent is the packet of the message. -/
theorem octets_packet (message : Outgoing)
    (hlength : (message.payload.length : Int) ≤ Frame.maxLength) :
    (message.packet hlength).octets = message.wire := by
  have hmark : "Content-Length: ".toList = "Content-Length:".toList ++ [' '] := by decide
  have hends : Text.Utf8.encode "\r\n\r\n".toList =
      [Frame.carriageReturn, Frame.lineFeed, Frame.carriageReturn, Frame.lineFeed] := by decide
  have htext : "Content-Length: ".toList ++ Text.decimal message.payload.length =
      lengthText message.payload.length := by
    unfold lengthText
    rw [hmark, List.append_assoc, List.singleton_append]
  -- `unfold` and not `rw`: the equation of a text with a numeral in it is slow to make
  unfold wire framed header
  rw [htext, Text.Utf8.encode_append, hends]
  simp only [Frame.Packet.octets, packet, List.flatMap_cons, List.flatMap_nil, List.append_nil,
    Frame.HeaderLine.octets, lengthLine, Frame.LineEnd.returns, List.append_assoc,
    List.cons_append, List.nil_append]

/-- A message is read back as its envelope, and nothing behind it is taken. -/
theorem read_framed {message : Outgoing} (hplain : message.IsPlain)
    (hlength : (message.payload.length : Int) ≤ Frame.maxLength) (rest : List UInt8) :
    Frame.read (message.wire ++ rest) = ⟨.ok (some message.fields), rest, []⟩ := by
  have hparse : Json.parse message.text = .ok (.obj message.fields) :=
    Json.parse_printWith (plain_fields hplain)
  have hpositive : 0 < Frame.effectiveLength (message.packet hlength).lines := by
    have hpos := length_payload_pos message
    rw [packet, effectiveLength_lengthLine (isConvertible_of_le hlength)]
    omega
  have hdecode : Text.Utf8.decode (message.packet hlength).body = .ok message.text :=
    Text.Utf8.decode_eq_ok_iff.mpr rfl
  rw [← octets_packet message hlength, Frame.read_packet_of_pos hpositive, Frame.readBody, hdecode]
  simp only [hparse]

/-- Messages whose values can be read back are all written, and reading the octets gives their
envelopes in the order in which they were sent, takes every octet, and then gives no more.  No
body that can be held is longer than a read can ask for. -/
theorem reading_undoes_writing (messages : List Outgoing)
    (hplain : ∀ message ∈ messages, message.IsPlain)
    (hlength : ∀ message ∈ messages, (message.payload.length : Int) ≤ Frame.maxLength) :
    ∃ frames, messages.mapM octets = .ok frames ∧
      let left := fun reads => Frame.leftAfter reads frames.flatten
      (∀ i (hi : i < messages.length), ∃ fields, IsEnvelope messages[i] fields ∧
        (Frame.read (left i)).outcome = .ok (some fields)) ∧
      left messages.length = [] ∧ (Frame.read (left messages.length)).outcome = .ok none := by
  have hwritten := mapM_eq_ok_map fun message hmem => octets_of_isPlain (hplain message hmem)
  refine ⟨messages.map wire, hwritten, ?_⟩
  intro left
  have hread : ∀ message ∈ messages, ∀ rest,
      Frame.read (message.wire ++ rest) = ⟨.ok (some message.fields), rest, []⟩ :=
    fun message hmem => read_framed (hplain message hmem) (hlength message hmem)
  have hrest : ∀ message ∈ messages, ∀ rest,
      (Frame.read (message.wire ++ rest)).rest = rest :=
    fun message hmem rest => by rw [hread message hmem]
  have hstream : (messages.map wire).flatten = messages.flatMap wire ++ [] := by
    rw [List.append_nil, List.flatMap_def]
  have hend : left messages.length = [] := by
    simp only [left]
    rw [hstream]
    exact Frame.leftAfter_length wire hrest []
  refine ⟨fun i hi => ⟨messages[i].fields, isEnvelope_fields _, ?_⟩, hend, ?_⟩
  · simp only [left]
    rw [hstream, Frame.leftAfter_eq_append wire hrest [] hi, hread _ (List.getElem_mem hi)]
  · rw [hend, Frame.read_nil]

/-- Controls, quotes, characters beyond the basic plane, nested values and what is left out
come back. -/
theorem reading_undoes_writing_of_three :
    let messages :=
      [Outgoing.response (.int 7) (.arr [.str "\x01\"\\é😀", .obj [("", .null), ("a", .bool true)]]),
        .failure (.str "x") (-32601) "Method not found" .null, .alert "\n"]
    ∃ frames, messages.mapM octets = .ok frames ∧
      let left := fun reads => Frame.leftAfter reads frames.flatten
      (∀ i (hi : i < messages.length), ∃ fields, IsEnvelope messages[i] fields ∧
        (Frame.read (left i)).outcome = .ok (some fields)) ∧
      left messages.length = [] ∧ (Frame.read (left messages.length)).outcome = .ok none := by
  have hobject : Json.Plain (.obj [("", .null), ("a", .bool true)]) :=
    plain_obj (by decide) (List.forall_mem_cons.mpr
      ⟨isPlainField_of_name "" .null,
        List.forall_mem_singleton.mpr (isPlainField_of_name "a" (.bool true))⟩)
  have hresult : Json.Plain (.arr
      [.str "\x01\"\\é😀", .obj [("", .null), ("a", .bool true)]]) :=
    .arr (List.forall_mem_cons.mpr
      ⟨.str (Text.isWhole_ofString _), List.forall_mem_singleton.mpr hobject⟩)
  have hid : Json.Plain (.int 7) := .int (isConvertible_of_le (by decide))
  refine reading_undoes_writing _ ?_ (by decide +kernel)
  simp only [List.forall_mem_cons]
  exact ⟨⟨hid, hresult⟩, ⟨.str (Text.isWhole_ofString _), isConvertible_of_le (by decide),
    Text.isWhole_ofString _, .null⟩, Text.isWhole_ofString _, by simp⟩

end EditorBridge.Outgoing
