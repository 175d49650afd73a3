/-
Percent decoding undoes percent encoding.  Every octet is written in characters of ASCII that
mean nothing else in a URI, and is read back from them whatever follows.
-/
import EditorBridge.Proofs.Utf8
import EditorBridge.Uri
import Mathlib.Data.List.TakeWhile

namespace EditorBridge.Uri

theorem hexValue?_upperHexDigit : ∀ n < 16, Text.hexValue? (upperHexDigit n) = some n := by decide

/-- A character that may stand in an encoded path: one of ASCII that is never passed over and
ends no path. -/
def isEncodedChar (c : Char) : Bool := isAscii c && !isDropped c && c != '?' && c != '#'

theorem all_isEncodedChar_encodeOctet :
    ∀ n < 256, (encodeOctet (UInt8.ofNat n)).all isEncodedChar = true := by
  decide +kernel

theorem isEncodedChar_percentEncode (octets : List UInt8) :
    ∀ c ∈ percentEncode octets, isEncodedChar c = true := by
  intro c hc
  obtain ⟨octet, -, hc⟩ := List.mem_flatMap.mp hc
  have hall := all_isEncodedChar_encodeOctet octet.toNat octet.toNat_lt
  rw [UInt8.ofNat_toNat] at hall
  exact List.all_eq_true.mp hall c hc

/-- An octet that stands for itself is a character of ASCII, and not the percent sign. -/
theorem toNat_of_isPlain {octet : UInt8} (hplain : isPlain octet = true) :
    (Char.ofNat octet.toNat).toNat = octet.toNat ∧ Char.ofNat octet.toNat ≠ '%' := by
  have hcode : octet.toNat < 0x80 ∧ octet.toNat ≠ 0x25 := by
    simp only [isPlain, Bool.or_eq_true, Bool.and_eq_true, decide_eq_true_eq, beq_iff_eq] at hplain
    omega
  have hsame : (Char.ofNat octet.toNat).toNat = octet.toNat :=
    Text.Utf8.toNat_ofNat_of_valid (Or.inl (by omega))
  refine ⟨hsame, fun hpercent => hcode.2 ?_⟩
  rw [← hsame, hpercent]
  rfl

theorem octet?_upperHexDigit (octet : UInt8) :
    octet? (upperHexDigit (octet.toNat / 16)) (upperHexDigit (octet.toNat % 16)) = some octet := by
  have hbound := octet.toNat_lt
  have hhigh := hexValue?_upperHexDigit (octet.toNat / 16) (by omega)
  have hlow := hexValue?_upperHexDigit (octet.toNat % 16) (by omega)
  have hvalue : octet.toNat / 16 * 16 + octet.toNat % 16 = octet.toNat := by omega
  rw [octet?, hhigh, hlow]
  simp only [Option.bind_eq_bind, Option.bind_some, hvalue, UInt8.ofNat_toNat]

/-- A character that is no percent sign is one octet. -/
theorem percentOctets_cons {c : Char} (hc : c ≠ '%') (rest : List Char) :
    percentOctets (c :: rest) = UInt8.ofNat c.toNat :: percentOctets rest := by
  rw [percentOctets]
  intro high low more hpercent
  exact absurd hpercent hc

/-- An encoded octet is read back, whatever follows. -/
theorem percentOctets_encodeOctet (octet : UInt8) (rest : List Char) :
    percentOctets (encodeOctet octet ++ rest) = octet :: percentOctets rest := by
  rw [encodeOctet]
  split
  next hplain =>
      obtain ⟨hsame, hne⟩ := toNat_of_isPlain hplain
      rw [List.singleton_append, percentOctets_cons hne, hsame, UInt8.ofNat_toNat]
  next =>
      rw [List.cons_append, List.cons_append, List.singleton_append, percentOctets,
        octet?_upperHexDigit]

theorem percentOctets_percentEncode (octets : List UInt8) :
    percentOctets (percentEncode octets) = octets := by
  rw [percentEncode]
  induction octets with
  | nil => rfl
  | cons octet rest ih => rw [List.flatMap_cons, percentOctets_encodeOctet, ih]

/-- A text of ASCII is decoded in one run. -/
theorem percentDecode_glyphs {cs : List Char} (hcs : ∀ c ∈ cs, isAscii c = true) :
    percentDecode (Text.glyphs cs) =
      Text.glyphs (Text.Utf8.decodeLenient (percentOctets cs)) := by
  cases cs with
  | nil =>
      rw [percentOctets, Text.Utf8.decodeLenient]
      exact percentDecode.eq_1
  | cons c rest =>
      obtain ⟨hc, hrest⟩ := List.forall_mem_cons.mp hcs
      have hglyphs : ∀ point ∈ Text.glyphs rest, isAscii point = true :=
        List.forall_mem_map.mpr hrest
      change percentDecode (.char c :: Text.glyphs rest) = _
      rw [percentDecode.eq_2, if_pos hc, List.takeWhile_eq_self_iff.mpr hglyphs,
        List.dropWhile_eq_nil_iff.mpr hglyphs, percentDecode.eq_1, List.append_nil]
      exact congrArg (fun cs => Text.glyphs (Text.Utf8.decodeLenient (percentOctets cs)))
        (Text.chars_glyphs (c :: rest))

/-- What was encoded is decoded to the characters that the octets are those of. -/
theorem percentDecode_percentEncode (octets : List UInt8) :
    percentDecode (Text.glyphs (percentEncode octets)) =
      Text.glyphs (Text.Utf8.decodeLenient octets) := by
  have hascii : ∀ c ∈ percentEncode octets, isAscii c = true := by
    intro c hc
    have hencoded := isEncodedChar_percentEncode octets c hc
    simp only [isEncodedChar, Bool.and_eq_true] at hencoded
    exact hencoded.1.1.1
  rw [percentDecode_glyphs hascii, percentOctets_percentEncode]

end EditorBridge.Uri
