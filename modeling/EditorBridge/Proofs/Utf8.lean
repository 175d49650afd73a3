/-
Reading of octets undoes writing.  Strict reading takes nothing else: octets have a text
exactly when they are what this text is written as.
-/
import EditorBridge.Text.Utf8

namespace EditorBridge.Text.Utf8

theorem toNat_ofNat_of_lt {n : Nat} (h : n < 256) : (UInt8.ofNat n).toNat = n := by
  rw [UInt8.toNat_ofNat', Nat.mod_eq_of_lt h]

theorem ofNat_eq_of_toNat (octet : UInt8) {n : Nat} (h : octet.toNat = n) :
    UInt8.ofNat n = octet := by
  rw [← h, UInt8.ofNat_toNat]

theorem toNat_ofNat_of_valid {n : Nat} (h : n.isValidChar) : (Char.ofNat n).toNat = n := by
  rw [Char.ofNat, dif_pos h]
  rfl

theorem isContinuation_iff (octet : UInt8) :
    isContinuation octet = true ↔ 0x80 ≤ octet.toNat ∧ octet.toNat < 0xc0 := by
  simp [isContinuation]

theorem allowsSecondOfThree_iff (first : Nat) (second : UInt8) :
    allowsSecondOfThree first second = true ↔
      0x80 ≤ second.toNat ∧ second.toNat < 0xc0 ∧ (second.toNat < 0xa0 → first ≠ 0xe0) ∧
        (0xa0 ≤ second.toNat → first ≠ 0xed) := by
  simp only [allowsSecondOfThree, Bool.and_eq_true, isContinuation_iff, and_assoc]
  split <;> simp only [bne_iff_ne] <;> omega

theorem allowsSecondOfFour_iff (first : Nat) (second : UInt8) :
    allowsSecondOfFour first second = true ↔
      0x80 ≤ second.toNat ∧ second.toNat < 0xc0 ∧ (second.toNat < 0x90 → first ≠ 0xf0) ∧
        (0x90 ≤ second.toNat → first ≠ 0xf4) := by
  simp only [allowsSecondOfFour, Bool.and_eq_true, isContinuation_iff, and_assoc]
  split <;> simp only [bne_iff_ne] <;> omega

section Writing

variable {n : Nat} (rest : List UInt8)

theorem head_of_one (hn : n ≤ 0x7f) : head (UInt8.ofNat n) rest = .char (Char.ofNat n) 0 := by
  have hfirst := toNat_ofNat_of_lt (n := n) (by omega)
  simp only [head, hfirst]
  rw [if_pos (by omega)]

theorem head_of_two (hn : 0x7f < n ∧ n ≤ 0x7ff) :
    head (UInt8.ofNat (n / 64 % 32 + 192)) (UInt8.ofNat (n % 64 + 128) :: rest) =
      .char (Char.ofNat n) 1 := by
  have hfirst := toNat_ofNat_of_lt (n := n / 64 % 32 + 192) (by omega)
  have hsecond := toNat_ofNat_of_lt (n := n % 64 + 128) (by omega)
  have hvalue : (n / 64 % 32 + 192) % 32 * 64 + (n % 64 + 128) % 64 = n := by omega
  simp only [head, hfirst]
  rw [if_neg (by omega), if_neg (by omega), if_pos (by omega), headOfTwo,
    if_pos ((isContinuation_iff _).mpr (by omega)), payload, hsecond, hvalue]

theorem head_of_three (hn : 0x7ff < n ∧ n ≤ 0xffff) (hvalid : n.isValidChar) :
    head (UInt8.ofNat (n / 4096 % 16 + 224))
        (UInt8.ofNat (n / 64 % 64 + 128) :: UInt8.ofNat (n % 64 + 128) :: rest) =
      .char (Char.ofNat n) 2 := by
  have hfirst := toNat_ofNat_of_lt (n := n / 4096 % 16 + 224) (by omega)
  have hsecond := toNat_ofNat_of_lt (n := n / 64 % 64 + 128) (by omega)
  have hthird := toNat_ofNat_of_lt (n := n % 64 + 128) (by omega)
  have hallowed : allowsSecondOfThree (n / 4096 % 16 + 224)
      (UInt8.ofNat (n / 64 % 64 + 128)) = true := by
    rw [allowsSecondOfThree_iff, hsecond]
    unfold Nat.isValidChar at hvalid
    omega
  have hvalue : (n / 4096 % 16 + 224) % 16 * 4096 + (n / 64 % 64 + 128) % 64 * 64
      + (n % 64 + 128) % 64 = n := by omega
  simp only [head, hfirst]
  rw [if_neg (by omega), if_neg (by omega), if_neg (by omega), if_pos (by omega)]
  simp only [headOfThree, hallowed, Bool.not_true, Bool.false_eq_true, if_false]
  rw [if_pos ((isContinuation_iff _).mpr (by omega)), payload, payload, hsecond, hthird, hvalue]

theorem head_of_four (hn : 0xffff < n) (hvalid : n.isValidChar) :
    head (UInt8.ofNat (n / 262144 % 8 + 240))
        (UInt8.ofNat (n / 4096 % 64 + 128) :: UInt8.ofNat (n / 64 % 64 + 128) ::
          UInt8.ofNat (n % 64 + 128) :: rest) =
      .char (Char.ofNat n) 3 := by
  unfold Nat.isValidChar at hvalid
  have hfirst := toNat_ofNat_of_lt (n := n / 262144 % 8 + 240) (by omega)
  have hsecond := toNat_ofNat_of_lt (n := n / 4096 % 64 + 128) (by omega)
  have hthird := toNat_ofNat_of_lt (n := n / 64 % 64 + 128) (by omega)
  have hfourth := toNat_ofNat_of_lt (n := n % 64 + 128) (by omega)
  have hallowed : allowsSecondOfFour (n / 262144 % 8 + 240)
      (UInt8.ofNat (n / 4096 % 64 + 128)) = true := by
    rw [allowsSecondOfFour_iff, hsecond]
    omega
  have hcontinued : isContinuation (UInt8.ofNat (n / 64 % 64 + 128)) = true := by
    rw [isContinuation_iff, hthird]
    omega
  have hvalue : (n / 262144 % 8 + 240) % 8 * 262144 + (n / 4096 % 64 + 128) % 64 * 4096
      + (n / 64 % 64 + 128) % 64 * 64 + (n % 64 + 128) % 64 = n := by omega
  simp only [head, hfirst]
  rw [if_neg (by omega), if_neg (by omega), if_neg (by omega), if_neg (by omega),
    if_pos (by omega)]
  simp only [headOfFour, hallowed, hcontinued, Bool.not_true, Bool.false_eq_true, if_false]
  rw [if_pos ((isContinuation_iff _).mpr (by omega)), payload, payload, payload, hsecond, hthird,
    hfourth, hvalue]

end Writing

/-- The octets of a character are examined as this character, whatever follows. -/
theorem head_utf8EncodeChar (c : Char) (rest : List UInt8) :
    ∃ first more, String.utf8EncodeChar c = first :: more ∧
      head first (more ++ rest) = .char c more.length := by
  have hvalid : c.toNat.isValidChar := c.valid
  have hsame : c.val.toNat = c.toNat := rfl
  rw [String.utf8EncodeChar.eq_1, hsame, ← Char.ofNat_toNat c]
  generalize c.toNat = n at hvalid
  rw [toNat_ofNat_of_valid hvalid]
  by_cases hone : n ≤ 0x7f
  · rw [if_pos hone]
    exact ⟨_, _, rfl, head_of_one rest hone⟩
  · rw [if_neg hone]
    by_cases htwo : n ≤ 0x7ff
    · rw [if_pos htwo]
      exact ⟨_, _, rfl, head_of_two rest ⟨by omega, htwo⟩⟩
    · rw [if_neg htwo]
      by_cases hthree : n ≤ 0xffff
      · rw [if_pos hthree]
        exact ⟨_, _, rfl, head_of_three rest ⟨by omega, hthree⟩ hvalid⟩
      · rw [if_neg hthree]
        exact ⟨_, _, rfl, head_of_four rest (by omega) hvalid⟩

/-- An octet that continues a sequence is a mark and the bits that it adds. -/
theorem toNat_eq_payload {octet : UInt8} (h : 0x80 ≤ octet.toNat ∧ octet.toNat < 0xc0) :
    octet.toNat = payload octet + 128 ∧ payload octet < 64 := by
  rw [payload]
  omega

section Reading

variable {first : UInt8} {rest : List UInt8} {c : Char} {more : Nat}

theorem headOfTwo_eq_char (hfirst : 0xc2 ≤ first.toNat ∧ first.toNat < 0xe0)
    (h : headOfTwo first.toNat rest = .char c more) :
    String.utf8EncodeChar c = first :: rest.take more := by
  cases rest with
  | nil => cases h
  | cons second rest =>
      rw [headOfTwo] at h
      split at h
      next hsecond =>
          obtain ⟨rfl, rfl⟩ := Head.char.inj h
          have hoctet := toNat_eq_payload ((isContinuation_iff second).mp hsecond)
          generalize hn : first.toNat % 32 * 64 + payload second = n
          have hvalid : n.isValidChar := Or.inl (by omega)
          rw [String.utf8EncodeChar.eq_1, show (Char.ofNat n).val.toNat = n from
            toNat_ofNat_of_valid hvalid, if_neg (by omega), if_pos (by omega),
            ofNat_eq_of_toNat first (by omega),
            ofNat_eq_of_toNat second (by omega)]
          rfl
      next => cases h

theorem headOfThree_eq_char (hfirst : 0xe0 ≤ first.toNat ∧ first.toNat < 0xf0)
    (h : headOfThree first.toNat rest = .char c more) :
    String.utf8EncodeChar c = first :: rest.take more := by
  cases rest with
  | nil => cases h
  | cons second rest =>
      simp only [headOfThree, Bool.not_eq_eq_eq_not, Bool.not_true] at h
      split at h
      next => cases h
      next hsecond =>
          rw [Bool.not_eq_false, allowsSecondOfThree_iff] at hsecond
          cases rest with
          | nil => cases h
          | cons third rest =>
              simp only at h
              split at h
              next hthird =>
                  obtain ⟨rfl, rfl⟩ := Head.char.inj h
                  have hoctet := toNat_eq_payload ⟨hsecond.1, hsecond.2.1⟩
                  have hoctet' := toNat_eq_payload ((isContinuation_iff third).mp hthird)
                  generalize hn : first.toNat % 16 * 4096 + payload second * 64
                    + payload third = n
                  have hrange : 0x7ff < n ∧ n ≤ 0xffff ∧ (n < 0xd800 ∨ 0xdfff < n) := by omega
                  clear hsecond
                  have hvalid : n.isValidChar := by unfold Nat.isValidChar; omega
                  rw [String.utf8EncodeChar.eq_1, show (Char.ofNat n).val.toNat = n from
                    toNat_ofNat_of_valid hvalid, if_neg (by omega), if_neg (by omega),
                    if_pos (by omega), ofNat_eq_of_toNat first (by omega),
                    ofNat_eq_of_toNat second (by omega),
                    ofNat_eq_of_toNat third (by omega)]
                  rfl
              next => cases h

theorem headOfFour_eq_char (hfirst : 0xf0 ≤ first.toNat ∧ first.toNat < 0xf5)
    (h : headOfFour first.toNat rest = .char c more) :
    String.utf8EncodeChar c = first :: rest.take more := by
  cases rest with
  | nil => cases h
  | cons second rest =>
      simp only [headOfFour, Bool.not_eq_eq_eq_not, Bool.not_true] at h
      split at h
      next => cases h
      next hsecond =>
          rw [Bool.not_eq_false, allowsSecondOfFour_iff] at hsecond
          cases rest with
          | nil => cases h
          | cons third rest =>
              simp only at h
              split at h
              next => cases h
              next hthird =>
                  rw [Bool.not_eq_false, isContinuation_iff] at hthird
                  cases rest with
                  | nil => cases h
                  | cons fourth rest =>
                      simp only at h
                      split at h
                      next hfourth =>
                          obtain ⟨rfl, rfl⟩ := Head.char.inj h
                          have hoctet := toNat_eq_payload ⟨hsecond.1, hsecond.2.1⟩
                          have hoctet' := toNat_eq_payload hthird
                          have hoctet'' := toNat_eq_payload ((isContinuation_iff fourth).mp hfourth)
                          generalize hn : first.toNat % 8 * 262144 + payload second * 4096
                            + payload third * 64 + payload fourth = n
                          have hrange : 0xffff < n ∧ n < 0x110000 := by omega
                          clear hsecond
                          have hvalid : n.isValidChar := Or.inr ⟨by omega, hrange.2⟩
                          rw [String.utf8EncodeChar.eq_1, show (Char.ofNat n).val.toNat = n from
                            toNat_ofNat_of_valid hvalid, if_neg (by omega), if_neg (by omega),
                            if_neg (by omega), ofNat_eq_of_toNat first (by omega),
                            ofNat_eq_of_toNat second (by omega),
                            ofNat_eq_of_toNat third (by omega),
                            ofNat_eq_of_toNat fourth (by omega)]
                          rfl
                      next => cases h

/-- Octets that are examined as a character are those that it is written as. -/
theorem utf8EncodeChar_of_head (h : head first rest = .char c more) :
    String.utf8EncodeChar c = first :: rest.take more := by
  simp only [head] at h
  split at h
  next hfirst =>
      obtain ⟨rfl, rfl⟩ := Head.char.inj h
      have hvalid : first.toNat.isValidChar := Or.inl (by omega)
      rw [String.utf8EncodeChar.eq_1, show (Char.ofNat first.toNat).val.toNat = first.toNat from
        toNat_ofNat_of_valid hvalid, if_pos (by omega), UInt8.ofNat_toNat, List.take_zero]
  next hfirst =>
      split at h
      next => exact nomatch h
      next hstart =>
          split at h
          next htwo => exact headOfTwo_eq_char ⟨by omega, htwo⟩ h
          next htwo =>
              split at h
              next hthree => exact headOfThree_eq_char ⟨by omega, hthree⟩ h
              next hthree =>
                  split at h
                  next hfour => exact headOfFour_eq_char ⟨by omega, hfour⟩ h
                  next => exact nomatch h

end Reading

@[simp] theorem encode_nil : encode [] = [] := rfl

theorem encode_cons (c : Char) (cs : List Char) :
    encode (c :: cs) = String.utf8EncodeChar c ++ encode cs := List.flatMap_cons

theorem encode_append (cs ds : List Char) : encode (cs ++ ds) = encode cs ++ encode ds :=
  List.flatMap_append

theorem decodeFrom_encode (start : Nat) (cs : List Char) :
    decodeFrom start (encode cs) = .ok cs := by
  induction cs generalizing start with
  | nil => rw [encode_nil, decodeFrom]
  | cons c rest ih =>
      obtain ⟨first, more, hc, hhead⟩ := head_utf8EncodeChar c (encode rest)
      rw [encode_cons, hc, List.cons_append, decodeFrom, hhead]
      simp only [List.drop_left, ih, Except.map]

/-- Lenient reading refuses nothing that was written. -/
theorem decodeLenient_encode (cs : List Char) : decodeLenient (encode cs) = cs := by
  induction cs with
  | nil => rw [encode_nil, decodeLenient]
  | cons c rest ih =>
      obtain ⟨first, more, hc, hhead⟩ := head_utf8EncodeChar c (encode rest)
      rw [encode_cons, hc, List.cons_append, decodeLenient, hhead]
      simp only [List.drop_left, ih]

theorem encode_of_decodeFrom {start : Nat} {octets : List UInt8} {cs : List Char}
    (h : decodeFrom start octets = .ok cs) : encode cs = octets := by
  fun_induction decodeFrom start octets generalizing cs with
  | case1 start =>
      obtain rfl := Except.ok.inj h
      rfl
  | case2 start first rest c more hhead ih =>
      cases hrest : decodeFrom (start + more + 1) (rest.drop more) with
      | error cause => rw [hrest] at h; exact nomatch h
      | ok ds =>
          rw [hrest] at h
          obtain rfl := Except.ok.inj h
          rw [encode_cons, utf8EncodeChar_of_head hhead, ih hrest, List.cons_append,
            List.take_append_drop]
  | case3 start first rest cause more hhead => exact nomatch h

/-- Octets are read as a text exactly when they are what it is written as. -/
theorem decode_eq_ok_iff {octets : List UInt8} {cs : List Char} :
    decode octets = .ok cs ↔ encode cs = octets := by
  constructor
  · exact encode_of_decodeFrom
  · rintro rfl
    exact decodeFrom_encode 0 cs

end EditorBridge.Text.Utf8
