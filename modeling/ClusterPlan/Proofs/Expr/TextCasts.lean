import ClusterPlan.Value
import ClusterPlan.Proofs.Text.Blanks
import ClusterPlan.Proofs.Text.Numerals
import Mathlib

/-!
# Casts to a text and back

An integer is cast to a numeral that is cast back to it, whatever blanks are put around the numeral, and a truth value to a word
that is cast back to it in any letter case. A text is cast to an integer exactly if it names one of 64 bits (`NamesInt`), and
otherwise the text is reported as it was given (`casts_through_text`).
-/

namespace ClusterPlan

/-- A word is written with each of its letters in lower or in upper case. -/
def InAnyCase (written word : List Char) : Prop := List.Forall₂ (fun c d => c = d.toLower ∨ c = d.toUpper) written word

/-- In lower case a word is the same, however it was written. -/
theorem InAnyCase.map_toLower {written word : List Char} (h : InAnyCase written word) :
    written.map Char.toLower = word.map Char.toLower := by
  induction h with
  | nil => rfl
  | cons hletter _ ih =>
    rw [List.map_cons, List.map_cons, ih]
    obtain rfl | rfl := hletter
    · rw [Char.toLower_toLower_eq_toLower]
    · rw [Char.toLower_toUpper_eq_toLower]

/-- A text names an integer: it is a numeral of the integer, with blanks around it. -/
def NamesInt (s : String) (n : Int) : Prop := ∃ core, Text.Trims s.toList core ∧ Text.Denotes core n

/-- An integer is read from a text exactly if the text names it and it is in range. -/
theorem readInt64?_trim_eq_some_iff {s : String} {i : Int64} :
    Text.readInt64? (Text.trim s.toList) = some i ↔ NamesInt s i.toInt := by
  simp only [Text.readInt64?_eq_some_iff, NamesInt, ← Text.trim_eq_iff, exists_eq_left']

/-- A numeral has no blanks at its ends. -/
theorem isBlank_of_mem_numeral {cs : List Char} {n : Int} (h : Text.Denotes cs n) : ∀ c ∈ cs, Text.isBlank c = false := by
  have hdigit : ∀ c : Char, c.isDigit = true → Text.isBlank c = false := by
    intro c hc
    have hrange := Char.isDigit_iff_toNat.1 hc
    simp only [Text.isBlank, Bool.or_eq_false_iff, Bool.and_eq_false_iff, decide_eq_false_iff_not, beq_eq_false_iff_ne]
    simp only [Char.reduceToNat] at hrange
    omega
  cases h with
  | unsigned hdigits => exact fun c hc => hdigit c (hdigits.2 c hc)
  | plus hdigits | minus hdigits => exact List.forall_mem_cons.2 ⟨by decide, fun c hc => hdigit c (hdigits.2 c hc)⟩

/-- Blanks around the numeral of an integer still name it. -/
theorem namesInt_append {before after : String} (hbefore : ∀ c ∈ before.toList, Text.isBlank c = true)
    (hafter : ∀ c ∈ after.toList, Text.isBlank c = true) (n : Int) : NamesInt (before ++ toString n ++ after) n := by
  have hdenotes := Text.denotes_toString n
  have hsolid := isBlank_of_mem_numeral hdenotes
  refine ⟨(toString n).toList, ⟨⟨before.toList, after.toList, ?_, hbefore, hafter⟩, ?_, ?_⟩, hdenotes⟩
  · rw [String.toList_append, String.toList_append]
  · exact fun c hc => hsolid c (List.mem_of_head? hc)
  · exact fun c hc => hsolid c (List.mem_of_getLast? hc)

namespace Value

variable {s : String} {target : DataType}

/-- A literal is accepted exactly if it can be read. -/
theorem ofLiteral_eq_ok_iff {read? : Option Value} {v : Value} : ofLiteral target s read? = .ok v ↔ read? = some v := by
  cases read? <;> simp [ofLiteral]

/-- A literal is refused exactly if it cannot be read, with the text and the type in the message. -/
theorem ofLiteral_eq_error_iff {read? : Option Value} {e : TypeError} :
    ofLiteral target s read? = .error e ↔ read? = none ∧ e = .invalidLiteral s target := by
  cases read? <;> simp [ofLiteral, eq_comm]

/-- A cast of a text to an integer type reads the text without the blanks around it. -/
theorem cast_string_of_integer (h : target = .int ∨ target = .bigInt) :
    (string s).cast target = ofLiteral target s ((Text.readInt64? (Text.trim s.toList)).map int) := by
  obtain rfl | rfl := h <;> rfl

/-- A cast of a text to an integer type succeeds exactly for texts that name an integer in range. -/
theorem cast_string_eq_ok_iff (h : target = .int ∨ target = .bigInt) {v : Value} :
    (string s).cast target = .ok v ↔ ∃ i : Int64, NamesInt s i.toInt ∧ v = int i := by
  rw [cast_string_of_integer h, ofLiteral_eq_ok_iff, Option.map_eq_some_iff]
  refine exists_congr fun i => ?_
  rw [readInt64?_trim_eq_some_iff, eq_comm (a := int i)]

/-- A cast of a text to an integer type fails exactly for texts that name no integer in range. -/
theorem cast_string_eq_error_iff (h : target = .int ∨ target = .bigInt) {e : TypeError} :
    (string s).cast target = .error e ↔ (∀ i : Int64, ¬NamesInt s i.toInt) ∧ e = .invalidLiteral s target := by
  rw [cast_string_of_integer h, ofLiteral_eq_error_iff, Option.map_eq_none_iff, Option.eq_none_iff_forall_ne_some]
  refine and_congr_left fun _ => forall_congr' fun i => ?_
  rw [ne_eq, readInt64?_trim_eq_some_iff]

/-- The words for truth values are understood in any mixture of cases. -/
theorem cast_word (b : Bool) {written : String} (h : InAnyCase written.toList (bool b).toText.toList) :
    (string written).cast .boolean = .ok (bool b) := by
  have hlower := h.map_toLower
  have hread : readBool? written = some b := by
    rw [readBool?, hlower]
    cases b <;> decide
  exact ofLiteral_eq_ok_iff.2 (by rw [hread, Option.map_some])

end Value

/-- The integers of 64 bits are those from the least to the greatest one. -/
theorem forall_toInt_iff {p : Int → Prop} :
    (∀ i : Int64, p i.toInt) ↔ ∀ n : Int, -0x8000000000000000 ≤ n → n ≤ 0x7FFFFFFFFFFFFFFF → p n := by
  constructor
  · intro h n hlow hhigh
    have hn := h (Int64.ofInt n)
    rwa [Int64.toInt_ofInt_of_le hlow (Int.lt_add_one_of_le hhigh)] at hn
  · exact fun h i => h i.toInt i.minValue_le_toInt i.toInt_le

/-- An integer that is cast to a varying string of any length gives a text that is cast back to it, with any blanks around it. A
truth value gives a word that is cast back to it in any letter case. A text is cast to an integer exactly if, without the blanks
around it, it is a numeral of one of 64 bits, which is the result; every other text is an invalid literal and is reported whole. -/
theorem casts_through_text :
    (∀ (i : Int64) (length : UInt32), ∃ text, (Value.int i).cast (.varchar length) = .ok (.string text) ∧
      ∀ before after : String, (∀ c ∈ before.toList, Text.isBlank c = true) → (∀ c ∈ after.toList, Text.isBlank c = true) →
        ∀ target : DataType, target = .int ∨ target = .bigInt →
          (Value.string (before ++ text ++ after)).cast target = .ok (.int i)) ∧
    (∀ (b : Bool) (length : UInt32), ∃ text, (Value.bool b).cast (.varchar length) = .ok (.string text) ∧
      ∀ written : String, InAnyCase written.toList text.toList → (Value.string written).cast .boolean = .ok (.bool b)) ∧
    ∀ (s : String) (target : DataType), target = .int ∨ target = .bigInt →
      (∀ v, (Value.string s).cast target = .ok v ↔ ∃ i : Int64, NamesInt s i.toInt ∧ v = .int i) ∧
        ∀ e, (Value.string s).cast target = .error e ↔
          (∀ n : Int, -0x8000000000000000 ≤ n → n ≤ 0x7FFFFFFFFFFFFFFF → ¬NamesInt s n) ∧ e = .invalidLiteral s target := by
  refine ⟨fun i length => ⟨_, rfl, fun before after hbefore hafter target htarget => ?_⟩,
    fun b length => ⟨_, rfl, fun written hwritten => ?_⟩, fun s target htarget => ⟨fun v => ?_, fun e => ?_⟩⟩
  · exact (Value.cast_string_eq_ok_iff htarget).2 ⟨i, namesInt_append hbefore hafter i.toInt, rfl⟩
  · exact Value.cast_word b hwritten
  · exact Value.cast_string_eq_ok_iff htarget
  · rw [Value.cast_string_eq_error_iff htarget]
    exact and_congr_left fun _ => forall_toInt_iff (p := fun n => ¬NamesInt s n)

/-- The least integer with blanks around it, a word in both letter cases, and an integer that is one too large. -/
theorem casts_of_extreme_numerals :
    (Value.int Int64.minValue).cast (.varchar 3) = .ok (.string "-9223372036854775808") ∧
      (Value.string "\t-9223372036854775808 \n").cast .bigInt = .ok (.int Int64.minValue) ∧
      (Value.string "TrUe").cast .boolean = .ok (.bool true) ∧
      (Value.string " +9223372036854775808").cast .int = .error (.invalidLiteral " +9223372036854775808" .int) ∧
      ∀ n : Int, -0x8000000000000000 ≤ n → n ≤ 0x7FFFFFFFFFFFFFFF → ¬NamesInt " +9223372036854775808" n := by
  obtain ⟨hint, hbool, hstring⟩ := casts_through_text
  have hleast : (Value.int Int64.minValue).cast (.varchar 3) = .ok (.string "-9223372036854775808") := by decide +kernel
  have htrue : (Value.bool true).cast (.varchar 3) = .ok (.string "true") := rfl
  have hlarge : (Value.string " +9223372036854775808").cast .int = .error (.invalidLiteral " +9223372036854775808" .int) := by
    decide +kernel
  have hbefore : ∀ c ∈ "\t".toList, Text.isBlank c = true := List.all_eq_true.1 (by decide)
  have hafter : ∀ c ∈ " \n".toList, Text.isBlank c = true := List.all_eq_true.1 (by decide)
  obtain ⟨text, hcast, hback⟩ := hint Int64.minValue 3
  obtain ⟨word, hword, hwritten⟩ := hbool true 3
  obtain rfl := Value.string.inj (Except.ok.inj (hleast.symm.trans hcast))
  obtain rfl := Value.string.inj (Except.ok.inj (htrue.symm.trans hword))
  refine ⟨hleast, hback "\t" " \n" hbefore hafter .bigInt (Or.inr rfl), hwritten "TrUe" ?_, hlarge,
    (((hstring " +9223372036854775808" .int (Or.inl rfl)).2 _).1 hlarge).1⟩
  exact .cons (Or.inr rfl) (.cons (Or.inl rfl) (.cons (Or.inr rfl) (.cons (Or.inl rfl) .nil)))

end ClusterPlan
