/-
Decimal numerals are read back as the numbers they were written for.
-/
import EditorBridge.Number.Binary64

namespace EditorBridge.Text

/-- The digit of a value below ten. -/
def digitChar (d : Nat) : Char := Char.ofNat (0x30 + d)

theorem digitChar_facts : ∀ d < 10, isAsciiDigit (digitChar d) = true ∧
    digitValue? (digitChar d) = some d ∧ (digitChar d = '0' → d = 0) := by
  decide

theorem decimal_of_lt {n : Nat} (h : n < 10) : decimal n = [digitChar n] := by
  rw [decimal, if_pos h]
  rfl

theorem decimal_of_ge {n : Nat} (h : 10 ≤ n) :
    decimal n = decimal (n / 10) ++ [digitChar (n % 10)] := by
  rw [decimal, if_neg (Nat.not_lt.mpr h)]
  rfl

/-- What holds of every digit holds of every character of a numeral. -/
theorem forall_mem_decimal {p : Char → Prop} (hp : ∀ d < 10, p (digitChar d)) (n : Nat) :
    ∀ c ∈ decimal n, p c := by
  induction n using Nat.strongRecOn with
  | ind n ih =>
      by_cases h : n < 10
      · rw [decimal_of_lt h]
        intro c hc
        rw [List.mem_singleton.mp hc]
        exact hp n h
      · rw [decimal_of_ge (Nat.not_lt.mp h)]
        intro c hc
        rcases List.mem_append.mp hc with hfront | hlast
        · exact ih (n / 10) (by omega) c hfront
        · rw [List.mem_singleton.mp hlast]
          exact hp (n % 10) (by omega)

theorem isAsciiDigit_of_mem_decimal (n : Nat) : ∀ c ∈ decimal n, isAsciiDigit c = true :=
  forall_mem_decimal (fun d hd => (digitChar_facts d hd).1) n

theorem digitsValue_append_singleton (cs : List Char) {c : Char} {d : Nat}
    (hc : digitValue? c = some d) : digitsValue (cs ++ [c]) = 10 * digitsValue cs + d := by
  rw [digitsValue, List.foldl_append, List.foldl_cons, List.foldl_nil, hc]
  rfl

theorem digitsValue_decimal (n : Nat) : digitsValue (decimal n) = n := by
  induction n using Nat.strongRecOn with
  | ind n ih =>
      by_cases h : n < 10
      · have hvalue := digitsValue_append_singleton [] (digitChar_facts n h).2.1
        rw [decimal_of_lt h]
        simpa [digitsValue] using hvalue
      · rw [decimal_of_ge (Nat.not_lt.mp h),
          digitsValue_append_singleton _ (digitChar_facts (n % 10) (by omega)).2.1,
          ih (n / 10) (by omega)]
        omega

/-- Only the numeral of zero begins with the digit zero. -/
theorem decimal_eq_cons (n : Nat) :
    ∃ c cs, decimal n = c :: cs ∧ isAsciiDigit c = true ∧ (c = '0' → n = 0 ∧ cs = []) := by
  induction n using Nat.strongRecOn with
  | ind n ih =>
      by_cases h : n < 10
      · have hfacts := digitChar_facts n h
        exact ⟨_, _, decimal_of_lt h, hfacts.1, fun hzero => ⟨hfacts.2.2 hzero, rfl⟩⟩
      · obtain ⟨c, cs, hfront, hdigit, hzero⟩ := ih (n / 10) (by omega)
        refine ⟨c, cs ++ [digitChar (n % 10)], ?_, hdigit, ?_⟩
        · rw [decimal_of_ge (Nat.not_lt.mp h), hfront, List.cons_append]
        · intro hc
          have := (hzero hc).1
          omega

theorem length_decimal_le {k n : Nat} (h : n < Number.tenTo (k + 1)) :
    (decimal n).length ≤ k + 1 := by
  induction k generalizing n with
  | zero =>
      rw [decimal_of_lt h]
      exact Nat.le_refl 1
  | succ k ih =>
      by_cases hsmall : n < 10
      · rw [decimal_of_lt hsmall, List.length_singleton]
        omega
      · have hpower : Number.tenTo (k + 1 + 1) = Number.tenTo (k + 1) * 10 := rfl
        have hfront := ih (n := n / 10) (by omega)
        rw [decimal_of_ge (Nat.not_lt.mp hsmall), List.length_append, List.length_singleton]
        omega

theorem lt_tenTo_length_decimal (n : Nat) : n < Number.tenTo (decimal n).length := by
  induction n using Nat.strongRecOn with
  | ind n ih =>
      by_cases h : n < 10
      · rw [decimal_of_lt h]
        exact h
      · have hfront := ih (n / 10) (by omega)
        have hpower : ∀ k, Number.tenTo (k + 1) = Number.tenTo k * 10 := fun _ => rfl
        rw [decimal_of_ge (Nat.not_lt.mp h), List.length_append, List.length_singleton, hpower]
        omega

theorem tenTo_le {k l : Nat} (h : k ≤ l) : Number.tenTo k ≤ Number.tenTo l :=
  Nat.pow_le_pow_right (by decide) h

theorem isConvertible_iff {n : Nat} :
    IsConvertible n ↔ n < Number.tenTo maxNumeralDigits := by
  rw [IsConvertible, Number.tenTo]

theorem length_decimal_of_isConvertible {n : Nat} (h : IsConvertible n) :
    (decimal n).length ≤ maxNumeralDigits := length_decimal_le (k := 4299) (isConvertible_iff.mp h)

theorem readDigits_decimal {n : Nat} (h : IsConvertible n) : readDigits (decimal n) = .ok n := by
  rw [readDigits, if_neg (Nat.not_lt.mpr (length_decimal_of_isConvertible h)),
    digitsValue_decimal]

theorem readDigits_decimal_of_not {n : Nat} (h : ¬IsConvertible n) :
    readDigits (decimal n) = .error ⟨(decimal n).length⟩ := by
  have hlength : maxNumeralDigits < (decimal n).length := by
    apply Nat.lt_of_not_le
    intro hshort
    exact h (isConvertible_iff.mpr
      (Nat.lt_of_lt_of_le (lt_tenTo_length_decimal n) (tenTo_le hshort)))
  rw [readDigits, if_pos hlength]

theorem dropWhile_of_head {α : Type} {p : α → Bool} {cs : List α}
    (hfirst : ∀ c ∈ cs.head?, p c = false) : cs.dropWhile p = cs := by
  cases cs with
  | nil => rfl
  | cons c rest =>
      rw [List.dropWhile_cons_of_neg]
      rw [hfirst c rfl]
      exact Bool.false_ne_true

/-- A text whose ends are not of the class is not trimmed. -/
theorem trimWhile_of_ends {α : Type} {p : α → Bool} {cs : List α}
    (hfirst : ∀ c ∈ cs.head?, p c = false) (hlast : ∀ c ∈ cs.getLast?, p c = false) :
    trimWhile p cs = cs := by
  rw [trimWhile, dropWhile_of_head hfirst, dropWhile_of_head, List.reverse_reverse]
  rw [List.head?_reverse]
  exact hlast

theorem trimWhile_of_forall {α : Type} {p : α → Bool} {cs : List α} (h : ∀ c ∈ cs, p c = false) :
    trimWhile p cs = cs :=
  trimWhile_of_ends (fun c hc => h c (List.mem_of_head? hc))
    fun c hc => h c (List.mem_of_getLast? hc)

theorem groupedDigits?_of_forall {cs : List Char} (hne : cs ≠ [])
    (h : ∀ c ∈ cs, isDigit c = true ∧ c ≠ '_') : groupedDigits? cs = some cs := by
  induction cs with
  | nil => exact absurd rfl hne
  | cons c rest ih =>
      have hc := (h c List.mem_cons_self).1
      cases rest with
      | nil => rw [groupedDigits?, if_pos hc]
      | cons d more =>
          have hd := (h d (List.mem_cons_of_mem c List.mem_cons_self)).2
          have hrest := ih (List.cons_ne_nil d more) fun e he => h e (List.mem_cons_of_mem c he)
          rw [groupedDigits?, if_pos hc, hrest, Option.map_some]
          · exact fun heq => List.cons_ne_nil d more heq
          · exact fun _ heq => hd (List.cons.inj heq).1

/-- A numeral with blanks in front of it is read as a person's. -/
theorem readInt?_trim_decimal {n : Nat} (h : IsConvertible n) :
    readInt? (trim (' ' :: decimal n)) = some (n : Int) := by
  have hdigits : ∀ c ∈ decimal n, isBlank c = false ∧ isNumeralBlank c = false ∧
      isDigit c = true ∧ c ≠ '_' ∧ c ≠ '-' ∧ c ≠ '+' :=
    forall_mem_decimal (by decide) n
  have htrim : trim (' ' :: decimal n) = decimal n := by
    have hcut : trim (' ' :: decimal n) = trimWhile isBlank (decimal n) := rfl
    rw [hcut, trimWhile_of_forall fun c hc => (hdigits c hc).1]
  have hnat : readNat? (decimal n) = some n := by
    have hgrouped : groupedDigits? (decimal n) = some (decimal n) := by
      apply groupedDigits?_of_forall
      · obtain ⟨c, cs, hcons, -⟩ := decimal_eq_cons n
        rw [hcons]
        exact List.cons_ne_nil c cs
      · exact fun c hc => ⟨(hdigits c hc).2.2.1, (hdigits c hc).2.2.2.1⟩
    simp only [readNat?, hgrouped, Option.bind_eq_bind, Option.bind_some]
    rw [if_neg (Nat.not_lt.mpr (length_decimal_of_isConvertible h)), digitsValue_decimal]
  rw [htrim, readInt?, trimWhile_of_forall fun c hc => (hdigits c hc).2.1]
  split
  next rest heq => exact absurd rfl (hdigits '-' (heq ▸ List.mem_cons_self)).2.2.2.2.1
  next rest heq => exact absurd rfl (hdigits '+' (heq ▸ List.mem_cons_self)).2.2.2.2.2
  next => rw [hnat]; rfl

end EditorBridge.Text
