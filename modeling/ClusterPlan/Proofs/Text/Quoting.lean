import ClusterPlan.Format.Document

/-!
# Texts between quotes

An escaped text is one of the forms in which the text may stand between quotes (`quotes_encode`). Each of these forms is read as
the text (`decode_of_quotes`), may stand between quotes (`isQuotable_of_quotes`), and is found up to the closing quote
(`cut_of_isQuotable`).
-/

namespace ClusterPlan.Text.Quoted

open Document (Quotes)

/-- The letter that a character is escaped with stands for it. -/
theorem ofEscapeLetter?_of_escapeLetter? {c letter : Char} (h : escapeLetter? c = some letter) :
    ofEscapeLetter? letter = some c := by
  rw [escapeLetter?] at h
  split at h
  case h_8 => cases h
  all_goals
    next hn =>
      have hc := congrArg Char.ofNat hn
      rw [Char.ofNat_toNat] at hc
      subst hc
      cases h
      decide

/-- The letter in front of a number stands for no character of its own. -/
theorem ne_of_ofEscapeLetter? {c letter : Char} (h : ofEscapeLetter? letter = some c) : letter ≠ 'u' := by
  rintro rfl
  cases h

/-- The characters with a letter are no digits and no minus. -/
theorem not_isDigit_of_ofEscapeLetter? {c letter : Char} (h : ofEscapeLetter? letter = some c) : ¬(c.isDigit = true ∨ c = '-') := by
  rw [ofEscapeLetter?.eq_def] at h
  split at h <;> cases h <;> decide

/-- A character without a letter is neither a quote nor a backslash. -/
theorem ne_of_escapeLetter?_eq_none {c : Char} (h : escapeLetter? c = none) : c ≠ '\x22' ∧ c ≠ '\\' := by
  constructor
  · rintro rfl
    exact absurd h (by decide)
  · rintro rfl
    exact absurd h (by decide)

/-! ## Hexadecimal digits -/

/-- A hexadecimal digit has the value that it was chosen for. -/
theorem hexValue?_hexDigit {n : Nat} (h : n < 16) : hexValue? (hexDigit n) = some n := by
  have hall : ∀ n < 16, hexValue? (hexDigit n) = some n := by decide
  exact hall n h

/-- The four digits for a control character give its code. -/
theorem unit?_of_control {n : Nat} (h : n < 0x20) : unit? '0' '0' (hexDigit (n / 16)) (hexDigit (n % 16)) = some n := by
  have hzero : hexValue? '0' = some 0 := by decide
  have hhigh : hexValue? (hexDigit (n / 16)) = some (n / 16) := hexValue?_hexDigit (by omega)
  have hlow : hexValue? (hexDigit (n % 16)) = some (n % 16) := hexValue?_hexDigit (by omega)
  simp only [unit?, hzero, hhigh, hlow, Option.some.injEq]
  omega

/-- A hexadecimal digit is neither a quote nor a backslash. -/
theorem ne_of_hexValue? {c : Char} (h : (hexValue? c).isSome) : c ≠ '\x22' ∧ c ≠ '\\' := by
  constructor
  · rintro rfl
    exact absurd h (by decide)
  · rintro rfl
    exact absurd h (by decide)

/-- Four characters with a value are hexadecimal digits. -/
theorem isSome_of_unit? {a b c d : Char} (h : (unit? a b c d).isSome) :
    (hexValue? a).isSome ∧ (hexValue? b).isSome ∧ (hexValue? c).isSome ∧ (hexValue? d).isSome := by
  rw [unit?] at h
  split at h
  · next ha hb hc hd => simp only [ha, hb, hc, hd, Option.isSome_some, and_self]
  · cases h

/-! ## Escaping -/

/-- A character stands for itself between quotes once it is encoded. -/
theorem quotes_encodeChar (c : Char) {cs quoted : List Char} (h : Quotes cs quoted) : Quotes (c :: cs) (encodeChar c ++ quoted) := by
  rw [encodeChar]
  cases hletter : escapeLetter? c with
  | some letter => exact .letter (ofEscapeLetter?_of_escapeLetter? hletter) h
  | none =>
    obtain ⟨hquote, hbackslash⟩ := ne_of_escapeLetter?_eq_none hletter
    by_cases hcontrol : c.toNat < 0x20
    · rw [if_pos hcontrol]
      exact .number hcontrol (unit?_of_control hcontrol) h
    · rw [if_neg hcontrol]
      exact .itself hquote hbackslash hcontrol h

/-- An escaped text is one of the forms of the text. -/
theorem quotes_encode (cs : List Char) : Quotes cs (encode cs) := by
  induction cs with
  | nil => exact .nil
  | cons c cs ih =>
    rw [encode, List.flatMap_cons]
    exact quotes_encodeChar c ih

/-! ## Reading escapes -/

/-- A backslash with its letter stands for one character. -/
theorem decode_letter {letter c : Char} (hletter : ofEscapeLetter? letter = some c) (hu : letter ≠ 'u') (t : List Char) :
    decode ('\\' :: letter :: t) = (decode t).map (c :: ·) := by
  rw [decode.eq_def]
  split
  · next heq => cases heq
  · next heq => cases heq; exact absurd rfl hu
  · next heq => cases heq; exact absurd rfl hu
  · next heq => cases heq; rw [hletter]
  · next hnot heq => cases heq; exact (hnot _ _ rfl rfl).elim

/-- A backslash, a u and four digits stand for the character with this code. -/
theorem decode_unit {a b c d : Char} {n : Nat} (hunit : unit? a b c d = some n) (hn : n < 0xD800) (t : List Char) :
    decode ('\\' :: 'u' :: a :: b :: c :: d :: t) = (decode t).map (Char.ofNat n :: ·) := by
  have hhigh : isHighHalf n = false := by simp [isHighHalf]; omega
  have hlow : isLowHalf n = false := by simp [isLowHalf]; omega
  rw [decode.eq_def]
  split
  · next heq => cases heq
  · next heq => cases heq; simp only [hunit, hhigh, hlow, Bool.false_eq_true, if_false]
  · next heq => cases heq; simp only [hunit, hhigh, hlow, Bool.or_false, Bool.false_eq_true, if_false]
  · next hnot heq => cases heq; exact (hnot _ _ _ _ _ rfl rfl).elim
  · next hnot heq => cases heq; exact (hnot _ _ rfl rfl).elim

/-- What is no backslash, quote or control character stands for itself. -/
theorem decode_itself {c : Char} (hbackslash : c ≠ '\\') (hquote : c ≠ '\x22') (hcontrol : ¬c.toNat < 0x20) (t : List Char) :
    decode (c :: t) = (decode t).map (c :: ·) := by
  rw [decode.eq_def]
  split
  · next heq => cases heq
  · next heq => cases heq; exact absurd rfl hbackslash
  · next heq => cases heq; exact absurd rfl hbackslash
  · next heq => cases heq; exact absurd rfl hbackslash
  · next heq => cases heq; rw [if_neg (not_or.2 ⟨hbackslash, not_or.2 ⟨hquote, hcontrol⟩⟩)]

/-- Each form of a text is read as the text. -/
theorem decode_of_quotes {cs quoted : List Char} (h : Quotes cs quoted) : decode quoted = some cs := by
  induction h with
  | nil => rw [decode]
  | itself hquote hbackslash hcontrol _ ih => rw [decode_itself hbackslash hquote hcontrol, ih, Option.map_some]
  | letter hletter _ ih => rw [decode_letter hletter (ne_of_ofEscapeLetter? hletter), ih, Option.map_some]
  | number hcontrol hunit _ ih => rw [decode_unit hunit (by omega), ih, Option.map_some, Char.ofNat_toNat]

/-! ## What may stand between quotes -/

/-- A backslash with its letter may stand between quotes. -/
theorem isQuotable_letter {letter c : Char} (hletter : ofEscapeLetter? letter = some c) (hu : letter ≠ 'u') (t : List Char) :
    isQuotable ('\\' :: letter :: t) = isQuotable t := by
  rw [isQuotable.eq_def]
  split
  · next heq => cases heq
  · next heq => cases heq; exact absurd rfl hu
  · next heq => cases heq; rw [hletter, Option.isSome_some, Bool.true_and]
  · next hnot heq => cases heq; exact (hnot _ _ rfl rfl).elim

/-- What is no backslash, quote or control character may stand between quotes. -/
theorem isQuotable_itself {c : Char} (hbackslash : c ≠ '\\') (hquote : c ≠ '\x22') (hcontrol : ¬c.toNat < 0x20) (t : List Char) :
    isQuotable (c :: t) = isQuotable t := by
  rw [isQuotable.eq_def]
  split
  · next heq => cases heq
  · next heq => cases heq; exact absurd rfl hbackslash
  · next heq => cases heq; exact absurd rfl hbackslash
  · next heq =>
    cases heq
    rw [bne_iff_ne.2 hbackslash, bne_iff_ne.2 hquote, decide_eq_true (Nat.le_of_not_lt hcontrol), Bool.and_self, Bool.true_and,
      Bool.true_and]

/-- Each form of a text may stand between quotes. -/
theorem isQuotable_of_quotes {cs quoted : List Char} (h : Quotes cs quoted) : isQuotable quoted = true := by
  induction h with
  | nil => rfl
  | itself hquote hbackslash hcontrol _ ih => rw [isQuotable_itself hbackslash hquote hcontrol, ih]
  | letter hletter _ ih => rw [isQuotable_letter hletter (ne_of_ofEscapeLetter? hletter), ih]
  | number _ hunit _ ih => rw [isQuotable, hunit, Option.isSome_some, Bool.true_and, ih]

/-- Digits and a minus are not escaped. -/
theorem eq_of_quotes {cs quoted : List Char} (h : Quotes cs quoted) (hcs : ∀ c ∈ cs, c.isDigit = true ∨ c = '-') : quoted = cs := by
  induction h with
  | nil => rfl
  | itself _ _ _ _ ih => rw [ih (List.forall_mem_cons.1 hcs).2]
  | letter hletter => exact absurd (List.forall_mem_cons.1 hcs).1 (not_isDigit_of_ofEscapeLetter? hletter)
  | number hcontrol =>
    obtain hdigit | rfl := (List.forall_mem_cons.1 hcs).1
    · have hrange := Char.isDigit_iff_toNat.1 hdigit
      simp only [Char.reduceToNat] at hrange
      omega
    · exact absurd hcontrol (by decide)

/-- The closing quote is looked for behind what is no quote and no backslash. -/
theorem cut_itself {c : Char} (hbackslash : c ≠ '\\') (hquote : c ≠ '\x22') (t : List Char) :
    cut (c :: t) = (cut t).map fun (before, after) => (c :: before, after) := by
  rw [cut.eq_def]
  split
  · next heq => cases heq
  · next heq => cases heq; exact absurd rfl hquote
  · next heq => cases heq; exact absurd rfl hbackslash
  · next heq => cases heq; rfl

/-- The closing quote is looked for behind hexadecimal digits. -/
theorem cut_hexDigit {c : Char} (h : (hexValue? c).isSome) (t : List Char) :
    cut (c :: t) = (cut t).map fun (before, after) => (c :: before, after) :=
  cut_itself (ne_of_hexValue? h).2 (ne_of_hexValue? h).1 t

/-- A quote after what may stand between quotes is the one that ends it. -/
theorem cut_of_isQuotable {quoted : List Char} (h : isQuotable quoted = true) (rest : List Char) :
    cut (quoted ++ '\x22' :: rest) = some (quoted, rest) := by
  fun_induction isQuotable quoted with
  | case1 => rw [List.nil_append, cut]
  | case2 a b c d quoted ih =>
    obtain ⟨hunit, hquoted⟩ := Bool.and_eq_true_iff.1 h
    obtain ⟨ha, hb, hc, hd⟩ := isSome_of_unit? hunit
    simp only [List.cons_append]
    rw [cut, cut_hexDigit ha, cut_hexDigit hb, cut_hexDigit hc, cut_hexDigit hd, ih hquoted]
    rfl
  | case3 letter quoted hu ih =>
    obtain ⟨-, hquoted⟩ := Bool.and_eq_true_iff.1 h
    simp only [List.cons_append]
    rw [cut, ih hquoted]
    rfl
  | case4 c quoted _ _ ih =>
    simp only [Bool.and_eq_true, bne_iff_ne] at h
    obtain ⟨⟨⟨hbackslash, hquote⟩, -⟩, hquoted⟩ := h
    rw [List.cons_append, cut_itself hbackslash hquote, ih hquoted]
    rfl

end ClusterPlan.Text.Quoted
