import ClusterPlan.Json.Printer
import ClusterPlan.Json.Reader
import ClusterPlan.Proofs.Text.Numerals
import ClusterPlan.Proofs.Text.Quoting

/-!
# Reading JSON texts

A text that stands for a JSON value is read as a value that means it (`exists_parse?_of_spells`), whatever blanks stand between
its parts. A value that is read keeps its numerals and quoted texts as they are written, so there may be several that mean the
same (`Means`).
-/

namespace ClusterPlan.Json

open Document (Quotes SpellsText Spells SpellsItems SpellsFields)

/-! ## What a value means -/

mutual

/-- A value as it is written means a JSON value. -/
inductive Means : Json → Document → Prop where
  | null : Means null .null
  | bool (b : Bool) : Means (bool b) (.bool b)
  | int (i : Int) : Means (number (toString i).toList) (.int i)
  | text {s : String} {quoted : List Char} : Quotes s.toList quoted → Means (string quoted) (.text s)
  | array {items : List Json} {docs : List Document} : MeansItems items docs → Means (array items) (.array docs)
  | object {fields : List (List Char × Json)} {docs : List (String × Document)} : MeansFields fields docs →
      Means (object fields) (.object docs)

/-- Values mean the items of an array. -/
inductive MeansItems : List Json → List Document → Prop where
  | nil : MeansItems [] []
  | cons {item : Json} {doc : Document} {items : List Json} {docs : List Document} : Means item doc → MeansItems items docs →
      MeansItems (item :: items) (doc :: docs)

/-- Named values mean the fields of an object. -/
inductive MeansFields : List (List Char × Json) → List (String × Document) → Prop where
  | nil : MeansFields [] []
  | cons {quoted : List Char} {name : String} {value : Json} {doc : Document} {fields : List (List Char × Json)}
      {docs : List (String × Document)} : Quotes name.toList quoted → Means value doc → MeansFields fields docs →
      MeansFields ((quoted, value) :: fields) ((name, doc) :: docs)

end

/-! ## Numerals -/

/-- A numeral, which ends where no character of a numeral follows. -/
structure IsNumeral (numeral : List Char) : Prop where
  read : (Numeral.ofChars? numeral).isSome
  chars : ∀ c ∈ numeral, isNumeralChar c = true

/-- The digits of a number have no zero too many in front. -/
theorem isWhole_toDigits (n : Nat) : isWhole (Nat.toDigits 10 n) = true := by
  have hdigits := Text.isDigits_iff.1 (Text.isDigits_toDigits n)
  rw [isWhole.eq_def]
  split
  · rfl
  · next rest hne heq =>
    obtain rfl | hn := Nat.eq_zero_or_pos n
    · rw [Nat.toDigits_zero] at heq
      exact absurd (List.cons.inj heq).2.symm hne
    · exact absurd (by rw [heq, List.head?_cons]) (Text.head?_toDigits hn)
  · rw [decide_eq_true hdigits.1, hdigits.2, Bool.and_self]

/-- Digits behind an optional minus are a numeral without point and exponent. -/
theorem ofChars?_of_digits (negative : Bool) {ds : List Char} (hdigits : Text.IsDigits ds) (hwhole : isWhole ds = true) :
    Numeral.ofChars? (if negative then '-' :: ds else ds) = some ⟨negative, ds, [], none⟩ := by
  have htake : ds.takeWhile Char.isDigit = ds := by
    rw [← List.append_nil ds, List.takeWhile_append_of_pos hdigits.2, List.takeWhile_nil]
  have hdrop : ds.dropWhile Char.isDigit = [] := by
    rw [← List.append_nil ds, List.dropWhile_append_of_pos hdigits.2, List.dropWhile_nil]
  cases negative with
  | true => simp [Numeral.ofChars?, htake, hdrop, hwhole]
  | false =>
    have hsign : ∀ rest, ds ≠ '-' :: rest := by
      rintro rest rfl
      exact absurd (hdigits.2 '-' List.mem_cons_self) (by decide)
    simp [Numeral.ofChars?, htake, hdrop, hwhole]

/-- A printed integer is a numeral with a sign and digits, without fraction and exponent. -/
theorem ofChars?_toString (i : Int) :
    Numeral.ofChars? (toString i).toList = some ⟨decide (i < 0), Nat.toDigits 10 i.natAbs, [], none⟩ := by
  have hread := ofChars?_of_digits (decide (i < 0)) (Text.isDigits_toDigits i.natAbs) (isWhole_toDigits i.natAbs)
  rw [Text.toList_toString]
  simpa only [decide_eq_true_eq] using hread

/-- The characters of an integer are digits and a minus. -/
theorem mem_toString {i : Int} {c : Char} (h : c ∈ (toString i).toList) : c.isDigit = true ∨ c = '-' := by
  have hdigits := (Text.isDigits_toDigits i.natAbs).2
  rw [Text.toList_toString] at h
  split at h
  · obtain rfl | h := List.mem_cons.1 h
    · exact Or.inr rfl
    · exact Or.inl (hdigits c h)
  · exact Or.inl (hdigits c h)

/-- A printed integer is a numeral. -/
theorem isNumeral_toString (i : Int) : IsNumeral (toString i).toList where
  read := by rw [ofChars?_toString, Option.isSome_some]
  chars := by
    intro c hc
    obtain hdigit | rfl := mem_toString hc
    · simp only [isNumeralChar, hdigit, Bool.true_or]
    · decide

/-! ## Blanks and ends -/

/-- Nothing but blanks. -/
def Blank (cs : List Char) : Prop := ∀ c ∈ cs, isBlank c = true

/-- The blanks of the grammar are those that are skipped. -/
theorem blank_of_document {cs : List Char} (h : Document.Blank cs) : Blank cs := by
  intro c hc
  simp only [isBlank, Bool.or_eq_true, beq_iff_eq]
  obtain rfl | rfl | rfl | rfl := h c hc <;> decide

/-- Blanks in front are skipped. -/
theorem skipBlanks_append {blanks : List Char} (h : Blank blanks) (cs : List Char) : skipBlanks (blanks ++ cs) = skipBlanks cs :=
  List.dropWhile_append_of_pos h

/-- Nothing is skipped in front of what is no blank. -/
theorem skipBlanks_cons {c : Char} (h : isBlank c = false) (cs : List Char) : skipBlanks (c :: cs) = c :: cs :=
  List.dropWhile_cons_of_neg (Bool.eq_false_iff.1 h)

/-- After blanks were skipped there is nothing to skip. -/
theorem skipBlanks_skipBlanks (cs : List Char) : skipBlanks (skipBlanks cs) = skipBlanks cs := by
  induction cs with
  | nil => rfl
  | cons c cs ih =>
    cases hc : isBlank c with
    | true =>
      have hskip : skipBlanks (c :: cs) = skipBlanks cs := List.dropWhile_cons_of_pos hc
      rw [hskip, ih]
    | false => rw [skipBlanks_cons hc, skipBlanks_cons hc]

/-- A numeral in front of a text ends before it. -/
def Ends (rest : List Char) : Prop := ∀ c ∈ rest.head?, isNumeralChar c = false

/-- No blank can go on with a numeral. -/
theorem isNumeralChar_of_isBlank {c : Char} (h : isBlank c = true) : isNumeralChar c = false := by
  simp only [isBlank, Bool.or_eq_true, beq_iff_eq] at h
  obtain ((rfl | rfl) | rfl) | rfl := h <;> decide

/-- A numeral ends in front of what is no part of it, with blanks between or not. -/
theorem ends_append {blanks : List Char} (h : Blank blanks) {c : Char} (hc : isNumeralChar c = false) (cs : List Char) :
    Ends (blanks ++ c :: cs) := by
  cases blanks with
  | nil =>
    rintro _ ⟨⟩
    exact hc
  | cons b blanks =>
    rintro _ ⟨⟩
    exact isNumeralChar_of_isBlank (h _ List.mem_cons_self)

/-! ## Reading -/

/-- Blanks in front of a value make no difference. -/
theorem readValue?_append {blanks : List Char} (h : Blank blanks) (fuel : Nat) (cs : List Char) :
    readValue? fuel (blanks ++ cs) = readValue? fuel cs := by
  cases fuel with
  | zero => rw [readValue?, readValue?]
  | succ fuel => rw [readValue?, readValue?, skipBlanks_append h]

/-- Whether blanks in front of a value were skipped makes no difference. -/
theorem readValue?_skipBlanks (fuel : Nat) (cs : List Char) : readValue? fuel (skipBlanks cs) = readValue? fuel cs := by
  cases fuel with
  | zero => rw [readValue?, readValue?]
  | succ fuel => rw [readValue?, readValue?, skipBlanks_skipBlanks]

theorem readItems?_skipBlanks (fuel : Nat) (cs : List Char) : readItems? fuel (skipBlanks cs) = readItems? fuel cs := by
  cases fuel with
  | zero => rw [readItems?, readItems?]
  | succ fuel => rw [readItems?, readItems?, readValue?_skipBlanks]

theorem readFields?_skipBlanks (fuel : Nat) (cs : List Char) : readFields? fuel (skipBlanks cs) = readFields? fuel cs := by
  cases fuel with
  | zero => rw [readFields?, readFields?]
  | succ fuel => rw [readFields?, readFields?, skipBlanks_skipBlanks]

/-- A text is read up to the quote that closes it. -/
theorem readQuoted?_of_isQuotable {quoted : List Char} (h : Text.Quoted.isQuotable quoted = true) (rest : List Char) :
    readQuoted? (quoted ++ '\x22' :: rest) = some (quoted, rest) := by
  rw [readQuoted?, Text.Quoted.cut_of_isQuotable h]
  exact if_pos h

/-- A quoted text starts with a quote and has another one behind it. -/
theorem quote_append (quoted rest : List Char) : quote quoted ++ rest = '\x22' :: (quoted ++ '\x22' :: rest) := by
  simp only [quote, List.cons_append, List.append_assoc, List.nil_append]

/-- A numeral is read up to where it ends. -/
theorem readNumber?_of_isNumeral {numeral : List Char} (h : IsNumeral numeral) {rest : List Char} (hrest : Ends rest) :
    readNumber? (numeral ++ rest) = some (number numeral, rest) := by
  have hnone : rest.takeWhile isNumeralChar = [] ∧ rest.dropWhile isNumeralChar = rest := by
    cases rest with
    | nil => exact ⟨rfl, rfl⟩
    | cons c rest =>
      have hc := Bool.eq_false_iff.1 (hrest c rfl)
      exact ⟨List.takeWhile_cons_of_neg hc, List.dropWhile_cons_of_neg hc⟩
  rw [readNumber?, List.takeWhile_append_of_pos h.chars, List.dropWhile_append_of_pos h.chars, hnone.1, hnone.2, List.append_nil]
  exact if_pos h.read

/-- A numeral has at least one character. -/
theorem IsNumeral.ne_nil {numeral : List Char} (h : IsNumeral numeral) : numeral ≠ [] := by
  rintro rfl
  exact absurd h.read (by decide)

/-- A numeral is read as a number. -/
theorem readValue?_of_isNumeral {numeral : List Char} (h : IsNumeral numeral) {rest : List Char} (hrest : Ends rest) (fuel : Nat) :
    readValue? (fuel + 1) (numeral ++ rest) = some (number numeral, rest) := by
  have hread := readNumber?_of_isNumeral h hrest
  obtain ⟨c, cs, rfl⟩ := List.exists_cons_of_ne_nil h.ne_nil
  have hc := h.chars c List.mem_cons_self
  have hblank : isBlank c = false := by
    cases hblank : isBlank c with
    | false => rfl
    | true =>
      rw [isNumeralChar_of_isBlank hblank] at hc
      cases hc
  rw [List.cons_append] at hread ⊢
  rw [readValue?, skipBlanks_cons hblank]
  -- A character of a numeral begins none of the other values.
  split
  case h_7 => exact hread
  all_goals
    next heq =>
      rw [(List.cons.inj heq).1] at hc
      exact absurd hc (by decide)

/-- What starts with a bracket, and does not close it at once, is an array of the items that follow. -/
theorem readValue?_array {cs : List Char} (h : ∀ rest, skipBlanks cs ≠ ']' :: rest) (fuel : Nat) :
    readValue? (fuel + 1) ('[' :: cs) = (readItems? fuel cs).map fun (items, rest) => (array items, rest) := by
  rw [readValue?, skipBlanks_cons (by decide)]
  -- By `h` there is something in front of the end.
  simp only [readItems?_skipBlanks]

/-- What starts with a brace, and does not close it at once, is an object of the fields that follow. -/
theorem readValue?_object {cs : List Char} (h : ∀ rest, skipBlanks cs ≠ '\x7d' :: rest) (fuel : Nat) :
    readValue? (fuel + 1) ('\x7b' :: cs) = (readFields? fuel cs).map fun (fields, rest) => (object fields, rest) := by
  rw [readValue?, skipBlanks_cons (by decide)]
  -- By `h` there is something in front of the end.
  simp only [readFields?_skipBlanks]

section Steps

variable {fuel : Nat} {cs rest after : List Char}

/-- An item with a bracket behind it is the last one. -/
theorem readItems?_last {item : Json} (hitem : readValue? fuel cs = some (item, rest)) (hend : skipBlanks rest = ']' :: after) :
    readItems? (fuel + 1) cs = some ([item], after) := by
  rw [readItems?, hitem]
  simp only [hend]

/-- An item with a comma behind it is followed by other items. -/
theorem readItems?_cons {item : Json} (hitem : readValue? fuel cs = some (item, rest)) (hcomma : skipBlanks rest = ',' :: after) :
    readItems? (fuel + 1) cs = (readItems? fuel after).map fun (items, rest) => (item :: items, rest) := by
  rw [readItems?, hitem]
  simp only [hcomma]

variable {name : List Char} (hname : Text.Quoted.isQuotable name = true) {value : Json} {before between behind : List Char}
  (hbefore : Blank before) (hbetween : Blank between) (hbehind : Blank behind)
  (hvalue : readValue? fuel cs = some (value, rest))
include hname hbefore hbetween hbehind hvalue

/-- A field with a brace behind it is the last one. -/
theorem readFields?_last (hend : skipBlanks rest = '\x7d' :: after) :
    readFields? (fuel + 1) (before ++ (quote name ++ (between ++ ':' :: (behind ++ cs)))) = some ([(name, value)], after) := by
  rw [readFields?, skipBlanks_append hbefore, quote_append, skipBlanks_cons (by decide)]
  simp only [readQuoted?_of_isQuotable hname, skipBlanks_append hbetween, skipBlanks_cons (c := ':') (by decide),
    readValue?_append hbehind, hvalue, hend]

/-- A field with a comma behind it is followed by other fields. -/
theorem readFields?_cons (hcomma : skipBlanks rest = ',' :: after) :
    readFields? (fuel + 1) (before ++ (quote name ++ (between ++ ':' :: (behind ++ cs)))) =
      (readFields? fuel after).map fun (fields, rest) => ((name, value) :: fields, rest) := by
  rw [readFields?, skipBlanks_append hbefore, quote_append, skipBlanks_cons (by decide)]
  simp only [readQuoted?_of_isQuotable hname, skipBlanks_append hbetween, skipBlanks_cons (c := ':') (by decide),
    readValue?_append hbehind, hvalue, hcomma]

end Steps

/-- A text in its quotes is one of its forms between two quotes. -/
theorem exists_quote {s : String} {cs : List Char} (h : SpellsText s cs) :
    ∃ quoted, Quotes s.toList quoted ∧ Text.Quoted.isQuotable quoted = true ∧ cs = quote quoted := by
  cases h with
  | @quote quoted hquotes => exact ⟨quoted, hquotes, Text.Quoted.isQuotable_of_quotes hquotes, rfl⟩

/-- A value begins with something that is no blank and ends no array. -/
theorem exists_head {doc : Document} {cs : List Char} (h : Spells doc cs) : ∃ c rest, cs = c :: rest ∧ isBlank c = false ∧ c ≠ ']' := by
  cases h with
  | int i =>
    have hnumeral := isNumeral_toString i
    obtain ⟨c, rest, hcs⟩ := List.exists_cons_of_ne_nil hnumeral.ne_nil
    have hc := hnumeral.chars c (hcs ▸ List.mem_cons_self)
    refine ⟨c, rest, hcs, ?_, ?_⟩
    · rw [Bool.eq_false_iff]
      intro hblank
      rw [isNumeralChar_of_isBlank hblank] at hc
      cases hc
    · rintro rfl
      exact absurd hc (by decide)
  | text h =>
    cases h
    exact ⟨_, _, rfl, by decide, by decide⟩
  | _ => exact ⟨_, _, rfl, by decide, by decide⟩

/-- Items do not begin with the end of the array. -/
theorem skipBlanks_ne_of_items {docs : List Document} {cs : List Char} (h : SpellsItems docs cs) (rest after : List Char) :
    skipBlanks (cs ++ rest) ≠ ']' :: after := by
  have hhead : ∃ before doc text cs', Blank before ∧ Spells doc text ∧ cs = before ++ (text ++ cs') := by
    cases h with
    | last hbefore hitem _ => exact ⟨_, _, _, _, blank_of_document hbefore, hitem, rfl⟩
    | cons hbefore hitem _ _ => exact ⟨_, _, _, _, blank_of_document hbefore, hitem, rfl⟩
  obtain ⟨before, doc, text, cs', hbefore, hitem, rfl⟩ := hhead
  obtain ⟨c, text, rfl, hblank, hc⟩ := exists_head hitem
  rw [List.append_assoc, List.append_assoc, skipBlanks_append hbefore, List.cons_append, skipBlanks_cons hblank]
  exact fun heq => hc (List.cons.inj heq).1

/-- Fields do not begin with the end of the object. -/
theorem skipBlanks_ne_of_fields {docs : List (String × Document)} {cs : List Char} (h : SpellsFields docs cs)
    (rest after : List Char) : skipBlanks (cs ++ rest) ≠ '\x7d' :: after := by
  have hhead : ∃ before name quoted cs', Blank before ∧ SpellsText name quoted ∧ cs = before ++ (quoted ++ cs') := by
    cases h with
    | last hbefore hname _ _ _ _ => exact ⟨_, _, _, _, blank_of_document hbefore, hname, rfl⟩
    | cons hbefore hname _ _ _ _ _ => exact ⟨_, _, _, _, blank_of_document hbefore, hname, rfl⟩
  obtain ⟨before, name, quoted, cs', hbefore, hname, rfl⟩ := hhead
  obtain ⟨quoted, -, -, rfl⟩ := exists_quote hname
  rw [List.append_assoc, List.append_assoc, skipBlanks_append hbefore, quote_append, skipBlanks_cons (by decide)]
  exact fun heq => absurd (List.cons.inj heq).1 (by decide)

mutual

/-- With more fuel than there are characters, a text is read as a value that means what it stands for, and what follows it is
left. -/
theorem exists_readValue? {doc : Document} {cs : List Char} (h : Spells doc cs) {fuel : Nat} (hfuel : cs.length < fuel)
    {rest : List Char} (hrest : Ends rest) : ∃ j, Means j doc ∧ readValue? fuel (cs ++ rest) = some (j, rest) := by
  obtain ⟨fuel, rfl⟩ := Nat.exists_eq_succ_of_ne_zero (Nat.ne_zero_of_lt hfuel)
  -- A bracket takes one unit of fuel and one character, so that the fuel is enough for what stands inside.
  cases h with
  | null => exact ⟨null, .null, by rw [readValue?]; rfl⟩
  | boolTrue | boolFalse => exact ⟨bool _, .bool _, by rw [readValue?]; rfl⟩
  | int i => exact ⟨_, .int i, readValue?_of_isNumeral (isNumeral_toString i) hrest fuel⟩
  | text h =>
    obtain ⟨quoted, hquotes, hquotable, rfl⟩ := exists_quote h
    refine ⟨_, .text hquotes, ?_⟩
    rw [readValue?, quote_append, skipBlanks_cons (by decide)]
    simp only [readQuoted?_of_isQuotable hquotable, Option.map_some]
  | @noItems blanks hblanks =>
    refine ⟨_, .array .nil, ?_⟩
    rw [List.cons_append, List.append_assoc, readValue?, skipBlanks_cons (by decide)]
    simp only [skipBlanks_append (blank_of_document hblanks)]
    rfl
  | @array docs cs h =>
    rw [List.length_cons] at hfuel
    obtain ⟨items, hmeans, hread⟩ := exists_readItems? h (Nat.lt_of_succ_lt_succ hfuel) rest
    refine ⟨_, .array hmeans, ?_⟩
    rw [List.cons_append, readValue?_array (skipBlanks_ne_of_items h rest), hread]
    rfl
  | @noFields blanks hblanks =>
    refine ⟨_, .object .nil, ?_⟩
    rw [List.cons_append, List.append_assoc, readValue?, skipBlanks_cons (by decide)]
    simp only [skipBlanks_append (blank_of_document hblanks)]
    rfl
  | @object docs cs h =>
    rw [List.length_cons] at hfuel
    obtain ⟨fields, hmeans, hread⟩ := exists_readFields? h (Nat.lt_of_succ_lt_succ hfuel) rest
    refine ⟨_, .object hmeans, ?_⟩
    rw [List.cons_append, readValue?_object (skipBlanks_ne_of_fields h rest), hread]
    rfl

/-- Spelled items are read as items that mean the same, whatever follows. -/
theorem exists_readItems? {docs : List Document} {cs : List Char} (h : SpellsItems docs cs) {fuel : Nat} (hfuel : cs.length < fuel)
    (rest : List Char) : ∃ items, MeansItems items docs ∧ readItems? fuel (cs ++ rest) = some (items, rest) := by
  obtain ⟨fuel, rfl⟩ := Nat.exists_eq_succ_of_ne_zero (Nat.ne_zero_of_lt hfuel)
  cases h with
  | @last doc before text after hbefore hitem hafter =>
    have hbefore := blank_of_document hbefore
    have hafter := blank_of_document hafter
    simp only [List.length_append, List.length_singleton] at hfuel
    have hlength : text.length < fuel := by omega
    have hends : Ends (after ++ ']' :: rest) := ends_append hafter (by decide) rest
    obtain ⟨item, hmeans, hread⟩ := exists_readValue? hitem hlength hends
    refine ⟨[item], .cons hmeans .nil, ?_⟩
    simp only [List.append_assoc, List.singleton_append]
    refine readItems?_last ((readValue?_append hbefore _ _).trans hread) ?_
    rw [skipBlanks_append hafter, skipBlanks_cons (by decide)]
  | @cons doc docs before text after cs hbefore hitem hafter hitems =>
    have hbefore := blank_of_document hbefore
    have hafter := blank_of_document hafter
    simp only [List.length_append, List.length_cons] at hfuel
    have hlength : text.length < fuel ∧ cs.length < fuel := by omega
    have hends : Ends (after ++ ',' :: (cs ++ rest)) := ends_append hafter (by decide) (cs ++ rest)
    obtain ⟨item, hmeans, hread⟩ := exists_readValue? hitem hlength.1 hends
    obtain ⟨items, hmeansItems, hreadItems⟩ := exists_readItems? hitems hlength.2 rest
    refine ⟨item :: items, .cons hmeans hmeansItems, ?_⟩
    simp only [List.append_assoc, List.cons_append]
    rw [readItems?_cons ((readValue?_append hbefore _ _).trans hread)
      ((skipBlanks_append hafter _).trans (skipBlanks_cons (by decide) _)), hreadItems]
    rfl

/-- Spelled fields are read as fields that mean the same, whatever follows. -/
theorem exists_readFields? {docs : List (String × Document)} {cs : List Char} (h : SpellsFields docs cs) {fuel : Nat}
    (hfuel : cs.length < fuel) (rest : List Char) :
    ∃ fields, MeansFields fields docs ∧ readFields? fuel (cs ++ rest) = some (fields, rest) := by
  obtain ⟨fuel, rfl⟩ := Nat.exists_eq_succ_of_ne_zero (Nat.ne_zero_of_lt hfuel)
  cases h with
  | @last name doc before quoted between behind text after hbefore hname hbetween hbehind hvalue hafter =>
    obtain ⟨quoted, hquotes, hquotable, rfl⟩ := exists_quote hname
    have hafter := blank_of_document hafter
    simp only [List.length_append, List.length_cons, List.length_nil] at hfuel
    have hlength : text.length < fuel := by omega
    have hends : Ends (after ++ '\x7d' :: rest) := ends_append hafter (by decide) rest
    obtain ⟨value, hmeans, hread⟩ := exists_readValue? hvalue hlength hends
    refine ⟨[(quoted, value)], .cons hquotes hmeans .nil, ?_⟩
    simp only [List.append_assoc, List.cons_append, List.nil_append]
    refine readFields?_last hquotable (blank_of_document hbefore) (blank_of_document hbetween) (blank_of_document hbehind) hread ?_
    rw [skipBlanks_append hafter, skipBlanks_cons (by decide)]
  | @cons name doc docs before quoted between behind text after cs hbefore hname hbetween hbehind hvalue hafter hfields =>
    obtain ⟨quoted, hquotes, hquotable, rfl⟩ := exists_quote hname
    have hafter := blank_of_document hafter
    simp only [List.length_append, List.length_cons] at hfuel
    have hlength : text.length < fuel ∧ cs.length < fuel := by omega
    have hends : Ends (after ++ ',' :: (cs ++ rest)) := ends_append hafter (by decide) (cs ++ rest)
    obtain ⟨value, hmeans, hread⟩ := exists_readValue? hvalue hlength.1 hends
    obtain ⟨fields, hmeansFields, hreadFields⟩ := exists_readFields? hfields hlength.2 rest
    refine ⟨(quoted, value) :: fields, .cons hquotes hmeans hmeansFields, ?_⟩
    simp only [List.append_assoc, List.cons_append]
    rw [readFields?_cons hquotable (blank_of_document hbefore) (blank_of_document hbetween) (blank_of_document hbehind) hread
      ((skipBlanks_append hafter _).trans (skipBlanks_cons (by decide) _)), hreadFields]
    rfl

end

/-- A text that stands for a JSON value is read as a value that means it. -/
theorem exists_parse?_of_spells {doc : Document} {text : String} (h : Spells doc text.toList) :
    ∃ j, Means j doc ∧ parse? text = some j := by
  have hends : Ends [] := fun _ hc => nomatch hc
  have hlength : text.toList.length < 2 * text.toList.length + 2 := by omega
  obtain ⟨j, hmeans, hread⟩ := exists_readValue? h hlength hends
  rw [List.append_nil] at hread
  refine ⟨j, hmeans, ?_⟩
  rw [parse?]
  simp only [hread]
  rfl

end ClusterPlan.Json
