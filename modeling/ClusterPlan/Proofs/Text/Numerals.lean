import ClusterPlan.Text.Numeral

/-!
# Numerals of integers

`Denotes` says which texts are numerals of which integers. Reading finds the integer of every numeral and of no other text
(`readInt?_eq_some_iff`), and an integer is written as one of its numerals (`denotes_toString`), without a zero in front of other
digits (`head?_toDigits`).
-/

namespace ClusterPlan.Text

/-- Decimal digits, at least one. -/
def IsDigits (ds : List Char) : Prop := ds ≠ [] ∧ ∀ c ∈ ds, c.isDigit = true

/-- A text is a numeral of an integer: decimal digits behind an optional sign. -/
inductive Denotes : List Char → Int → Prop where
  | unsigned {ds : List Char} : IsDigits ds → Denotes ds (Nat.ofDigitChars 10 ds 0)
  | plus {ds : List Char} : IsDigits ds → Denotes ('+' :: ds) (Nat.ofDigitChars 10 ds 0)
  | minus {ds : List Char} : IsDigits ds → Denotes ('-' :: ds) (-(Nat.ofDigitChars 10 ds 0 : Int))

/-! ## Reading -/

/-- The value of digits is their number in base ten. -/
theorem digitsValue_eq (ds : List Char) : digitsValue ds = Nat.ofDigitChars 10 ds 0 :=
  Nat.ofDigitChars_eq_foldl.symm

/-- Digits are a text that is not empty and has only digits. -/
theorem isDigits_iff {ds : List Char} : IsDigits ds ↔ ds ≠ [] ∧ ds.all Char.isDigit = true := by
  rw [IsDigits, List.all_eq_true]

/-- A sign in front is split off; without one a number is not negative. -/
theorem splitSign_cases (cs : List Char) :
    (∃ ds, cs = '-' :: ds ∧ splitSign cs = (true, ds)) ∨ (∃ ds, cs = '+' :: ds ∧ splitSign cs = (false, ds)) ∨
      splitSign cs = (false, cs) := by
  rw [splitSign.eq_def]
  split
  · exact Or.inl ⟨_, rfl, rfl⟩
  · exact Or.inr (Or.inl ⟨_, rfl, rfl⟩)
  · exact Or.inr (Or.inr rfl)

/-- A sign is no digit. -/
theorem splitSign_of_isDigits {ds : List Char} (h : IsDigits ds) : splitSign ds = (false, ds) := by
  obtain ⟨rest, rfl, -⟩ | ⟨rest, rfl, -⟩ | hsplit := splitSign_cases ds
  · exact absurd (h.2 '-' List.mem_cons_self) (by decide)
  · exact absurd (h.2 '+' List.mem_cons_self) (by decide)
  · exact hsplit

/-- An integer is read from the digits behind its sign. -/
theorem readInt?_of_splitSign {cs ds : List Char} {negative : Bool} (h : splitSign cs = (negative, ds)) {i : Int} :
    readInt? cs = some i ↔ IsDigits ds ∧
      (if negative then -(Nat.ofDigitChars 10 ds 0 : Int) else Nat.ofDigitChars 10 ds 0) = i := by
  rw [readInt?, h, isDigits_iff, ← digitsValue_eq]
  simp only [Option.ite_none_right_eq_some, Option.some.injEq]

/-- Reading finds the integer of a numeral, and reads nothing else. -/
theorem readInt?_eq_some_iff {cs : List Char} {i : Int} : readInt? cs = some i ↔ Denotes cs i := by
  constructor
  · intro h
    obtain ⟨ds, rfl, hsplit⟩ | ⟨ds, rfl, hsplit⟩ | hsplit := splitSign_cases cs <;>
      obtain ⟨hdigits, rfl⟩ := (readInt?_of_splitSign hsplit).1 h
    · exact .minus hdigits
    · exact .plus hdigits
    · exact .unsigned hdigits
  · intro h
    cases h with
    | unsigned hdigits => exact (readInt?_of_splitSign (splitSign_of_isDigits hdigits)).2 ⟨hdigits, rfl⟩
    | plus hdigits | minus hdigits => exact (readInt?_of_splitSign rfl).2 ⟨hdigits, rfl⟩

/-- A word is read exactly from the numerals of its integer. -/
theorem readInt64?_eq_some_iff {cs : List Char} {i : Int64} : readInt64? cs = some i ↔ Denotes cs i.toInt := by
  rw [readInt64?, ← readInt?_eq_some_iff]
  cases hread : readInt? cs with
  | none => simp only [reduceCtorEq]
  | some n =>
    simp only [Option.ite_none_right_eq_some, Option.some.injEq]
    constructor
    · rintro ⟨⟨hlow, hhigh⟩, rfl⟩
      exact (Int64.toInt_ofInt_of_le hlow (Int.lt_add_one_of_le hhigh)).symm
    · rintro rfl
      exact ⟨⟨i.minValue_le_toInt, i.toInt_le⟩, Int64.ofInt_toInt i⟩

/-! ## Writing -/

/-- A printed number has digits only. -/
theorem isDigits_toDigits (n : Nat) : IsDigits (Nat.toDigits 10 n) :=
  ⟨Nat.toDigits_ne_nil, fun _ hc => Nat.isDigit_of_mem_toDigits (by decide) (by decide) hc⟩

/-- A printed integer is the sign of a negative one and the digits of its amount. -/
theorem toList_toString (i : Int) :
    (toString i).toList = if i < 0 then '-' :: Nat.toDigits 10 i.natAbs else Nat.toDigits 10 i.natAbs := by
  rw [Int.toString_eq_repr, Int.repr_eq_if]
  by_cases h : i < 0
  · have habs : (-i).toNat = i.natAbs := by omega
    rw [if_neg (Int.not_le.2 h), if_pos h, habs, Nat.repr_eq_ofList_toDigits, String.toList_append, String.toList_ofList,
      String.toList_ofList]
    rfl
  · have habs : i.toNat = i.natAbs := by omega
    rw [if_pos (Int.not_lt.1 h), if_neg h, habs, Nat.repr_eq_ofList_toDigits, String.toList_ofList]

/-- An integer is written as one of its numerals. -/
theorem denotes_toString (i : Int) : Denotes (toString i).toList i := by
  have hdigits := isDigits_toDigits i.natAbs
  rw [toList_toString]
  split
  · have hi : i = -(i.natAbs : Int) := by omega
    have hdenotes := Denotes.minus hdigits
    rwa [Nat.ofDigitChars_ten_toDigits, ← hi] at hdenotes
  · have hi : i = i.natAbs := by omega
    have hdenotes := Denotes.unsigned hdigits
    rwa [Nat.ofDigitChars_ten_toDigits, ← hi] at hdenotes

/-- Only zero is written with a zero in front. -/
theorem head?_toDigits {n : Nat} (h : 0 < n) : (Nat.toDigits 10 n).head? ≠ some '0' := by
  induction n using Nat.strongRecOn with
  | ind n ih =>
    by_cases hn : n < 10
    · rw [Nat.toDigits_of_lt_base hn, List.head?_cons, ne_eq, Option.some.injEq, Nat.digitChar_eq_zero]
      omega
    · rw [Nat.toDigits_of_base_le (by decide) (Nat.le_of_not_lt hn),
        List.head?_append, List.head?_eq_some_head Nat.toDigits_ne_nil, Option.some_or,
        ← List.head?_eq_some_head Nat.toDigits_ne_nil]
      exact ih (n / 10) (by omega) (by omega)

end ClusterPlan.Text
