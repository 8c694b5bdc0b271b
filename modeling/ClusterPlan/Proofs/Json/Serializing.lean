import ClusterPlan.Proofs.Format.RoundTrip
import ClusterPlan.Proofs.Json.Spelling
import ClusterPlan.Proofs.Json.Writing

/-!
# The serializer of the workbench keeps to the format

A value that means a JSON value is read as the datum that the format reads in it (`read?_of_reads`), and what is written stands
for the JSON value of the format. So `Json.serializer` is a serializer as it is documented (`documented_serializer`).
-/

namespace ClusterPlan.Json

open Document (Quotes)
open Shape (Reads ReadsItems ReadsFields read? readFilled? isProper areProper)

/-! ## Texts and integers -/

/-- What stands between quotes is read as the text that it was quoted from. -/
theorem unquote?_of_quotes {s : String} {quoted : List Char} (h : Quotes s.toList quoted) : unquote? quoted = some s := by
  rw [unquote?, Text.Quoted.decode_of_quotes h, Option.map_some, String.ofList_toList]

/-- An integer from the least signed word to the greatest unsigned one is found in its numeral. -/
theorem integer?_toString {i : Int} (hlow : -0x8000000000000000 ≤ i) (hhigh : i < 0x10000000000000000) :
    (number (toString i).toList).integer? = some i := by
  have hsize : Text.digitsValue (Nat.toDigits 10 i.natAbs) = i.natAbs := by
    rw [Text.digitsValue_eq, Nat.ofDigitChars_ten_toDigits]
  rw [integer?, ofChars?_toString, Option.bind_some, Numeral.integer?]
  simp only [hsize, ne_eq, not_true_eq_false, Option.isSome_none, Bool.false_eq_true, or_self, if_false, UInt64.size,
    decide_eq_true_eq]
  split
  · rw [if_pos (by omega)]
    exact congrArg some (by omega)
  · rw [if_pos (by omega)]
    exact congrArg some (by omega)

/-- The integers of all words lie between the least signed and the greatest unsigned one. -/
theorem bounds_of_holds {word : Word} {i : Int} (h : word.Holds i) : -0x8000000000000000 ≤ i ∧ i < 0x10000000000000000 := by
  obtain ⟨hlow, hhigh⟩ := h
  cases word <;> rw [Word.least] at hlow <;> rw [Word.greatest] at hhigh <;> omega

/-- A number of a word is read back from its numeral. -/
theorem wordRead?_toString {word : Word} {i : Int} (h : word.Holds i) : word.read? (number (toString i).toList) = some i := by
  obtain ⟨hlow, hhigh⟩ := bounds_of_holds h
  rw [Word.read?, integer?_toString hlow hhigh]
  exact if_pos (decide_eq_true h)

/-! ## Tables -/

/-- The fields of a table are the numerals of its keys and numbers. -/
theorem eq_of_meansFields {fields : List (List Char × Json)} {listed : List (Int × Nat)}
    (h : MeansFields fields (listed.map fun entry => (toString entry.1, .int entry.2))) :
    fields = listed.map fun entry => ((toString entry.1).toList, number (toString (entry.2 : Int)).toList) := by
  induction listed generalizing fields with
  | nil =>
    cases h
    rfl
  | cons entry listed ih =>
    cases h with
    | cons hname hvalue hfields =>
      cases hvalue
      rw [Text.Quoted.eq_of_quotes hname fun _ => mem_toString, ih hfields, List.map_cons]

/-- A table is read from numerals for its keys and values, in ascending order of the keys. -/
theorem readTable?_map {listed : List (Int × Nat)}
    (h : ∀ entry ∈ listed, Word.int64.Holds entry.1 ∧ Word.uint64.Holds entry.2) :
    Datum.readTable? (listed.map fun entry => ((toString entry.1).toList, number (toString (entry.2 : Int)).toList)) =
      some (Datum.ascending listed) := by
  have hfold : ∀ (rest sorted : List (Int × Nat)), (∀ entry ∈ rest, Word.int64.Holds entry.1 ∧ Word.uint64.Holds entry.2) →
      (rest.map fun entry => ((toString entry.1).toList, number (toString (entry.2 : Int)).toList)).foldlM Datum.readEntry? sorted =
      some (rest.foldl (fun sorted entry => Datum.insertEntry entry.1 entry.2 sorted) sorted) := by
    intro rest
    induction rest with
    | nil => exact fun _ _ => rfl
    | cons entry rest ih =>
      intro sorted hrest
      obtain ⟨hentry, hrest⟩ := List.forall_mem_cons.1 hrest
      rw [List.map_cons, List.foldlM_cons, Datum.readEntry?, wordRead?_toString hentry.1, wordRead?_toString hentry.2]
      exact ih _ hrest
  exact hfold listed [] h

/-! ## Fields -/

/-- Values under the names of fields mean the fields. -/
abbrev MeansNamed : List (String × Json) → List (String × Document) → Prop :=
  List.Forall₂ fun field doc => field.1 = doc.1 ∧ Means field.2 doc.2

/-- The names of the fields of an object can be read. -/
theorem exists_named {fields : List (List Char × Json)} {docs : List (String × Document)} (h : MeansFields fields docs) :
    ∃ named, (fields.mapM fun (name, j) => (unquote? name).map fun name => (name, j)) = some named ∧ MeansNamed named docs := by
  induction docs generalizing fields with
  | nil =>
    cases h
    exact ⟨[], rfl, .nil⟩
  | cons doc docs ih =>
    cases h with
    | @cons _ name value _ _ _ hname hvalue hfields =>
      obtain ⟨named, hread, hnamed⟩ := ih hfields
      refine ⟨(name, value) :: named, ?_, .cons ⟨rfl, hvalue⟩ hnamed⟩
      rw [List.mapM_cons, hread]
      simp only [unquote?_of_quotes hname]
      rfl

/-- The values under one name mean the fields of that name. -/
theorem MeansNamed.filter {named : List (String × Json)} {docs : List (String × Document)} (h : MeansNamed named docs)
    (name : String) : MeansNamed (named.filter fun field => field.1 == name) (docs.filter fun doc => doc.1 == name) := by
  induction h with
  | nil => exact .nil
  | @cons field doc named docs hfield _ ih =>
    rw [List.filter_cons, List.filter_cons, hfield.1]
    split
    · exact .cons hfield ih
    · exact ih

/-! ## Alternatives -/

/-- An alternative is found under its name. -/
theorem readFilled?_of_mem {filled : List (String × Shape)} (hnodup : (filled.map (·.1)).Nodup) {name : String} {s : Shape}
    (hmem : (name, s) ∈ filled) (j : Json) : readFilled? filled name j = (s.read? j).map (.filled name) := by
  induction filled with
  | nil => cases hmem
  | cons first filled ih =>
    rw [List.map_cons, List.nodup_cons] at hnodup
    rw [readFilled?]
    obtain rfl | hmem := List.mem_cons.1 hmem
    · exact if_pos rfl
    · rw [if_neg fun heq => hnodup.1 (List.mem_map.2 ⟨(name, s), hmem, heq.symm⟩), ih hnodup.2 hmem]

/-- Only null means null. -/
theorem isNull_of_means {j : Json} {doc : Document} (h : Means j doc) (hdoc : doc ≠ .null) : j.isNull = false := by
  cases h with
  | null => exact absurd rfl hdoc
  | _ => rfl

/-! ## Data -/

mutual

/-- A value is read as the datum that the format reads in what it means. -/
theorem read?_of_reads {s : Shape} {doc : Document} {d : Datum} (h : s.Reads doc d) (hs : s.isProper) {j : Json}
    (hj : Means j doc) : s.read? j = some d := by
  cases h with
  | bool b => cases hj; rw [read?]; rfl
  | int hi => cases hj; rw [read?, wordRead?_toString hi, Option.map_some]
  | text t =>
    cases hj with
    | text hquotes => rw [read?, text?, unquote?_of_quotes hquotes, Option.map_some]
  | absent s => cases hj; rw [read?]; rfl
  | present hdoc h =>
    rw [isProper, Bool.and_eq_true] at hs
    rw [read?, isNull_of_means hj hdoc, read?_of_reads h hs.2 hj, Option.map_some]
    rfl
  | list h =>
    rw [isProper] at hs
    cases hj with
    | array hitems => rw [read?, array?, Option.bind_some, mapM_of_reads h hs hitems, Option.map_some]
  | table hascending hperm hholds =>
    cases hj with
    | object hfields =>
      have hnodup := ((hperm.map (·.1)).nodup_iff).2 hascending.nodup_keys
      have hentries := hascending.eq_of_perm (Datum.ascending_ascending _) ((Datum.perm_ascending hnodup).trans hperm)
      rw [eq_of_meansFields hfields, read?, readTable?_map hholds, hentries, Option.map_some]
  | record h =>
    rw [isProper, Bool.and_eq_true] at hs
    cases hj with
    | object hfields =>
      -- The fields of the object come in any order: they are looked up by their names.
      obtain ⟨named, hnamed, hmeans⟩ := exists_named hfields
      obtain ⟨found, hfound, hread⟩ := exists_fields_of_reads h hs.2 hmeans
      rw [read?, fields?, hnamed]
      simp only [Option.bind_eq_bind, Option.bind_some]
      rw [hfound, Option.bind_some, hread, Option.map_some]
  | plain hname =>
    cases hj with
    | text hquotes =>
      rw [read?, alternative?, unquote?_of_quotes hquotes]
      exact if_pos hname
  | @filled plain filled name s doc d hmem h =>
    rw [isProper, Bool.and_eq_true, decide_eq_true_eq, List.nodup_append] at hs
    obtain ⟨⟨-, hfilled, hdisjoint⟩, hproper⟩ := hs
    -- An alternative with a value is no plain one, as the names of a proper shape differ.
    have hplain : name ∉ plain := fun hname => hdisjoint name hname name (List.mem_map.2 ⟨_, hmem, rfl⟩) rfl
    cases hj with
    | object hfields =>
      cases hfields with
      | cons hname hvalue hnil =>
        cases hnil
        rw [read?, alternative?, unquote?_of_quotes hname]
        simp only [Option.map_some, if_neg hplain]
        rw [readFilled?_of_mem hfilled hmem, read?_of_reads h (Shape.isProper_of_mem hproper hmem) hvalue, Option.map_some]

/-- Items are read one after the other. -/
theorem mapM_of_reads {s : Shape} {docs : List Document} {ds : List Datum} (h : ReadsItems s docs ds) (hs : s.isProper)
    {items : List Json} (hitems : MeansItems items docs) : items.mapM s.read? = some ds := by
  cases h with
  | nil =>
    cases hitems
    rfl
  | cons hd h =>
    cases hitems with
    | cons hitem hitems =>
      rw [List.mapM_cons, read?_of_reads hd hs hitem, mapM_of_reads h hs hitems]
      rfl

/-- The fields of a record are found under their names, in whichever order they stand. -/
theorem exists_fields_of_reads {shapes : List (String × Shape)} {docs : List (String × Document)} {data : List (String × Datum)}
    (h : ReadsFields shapes docs data) (hshapes : areProper shapes) {named : List (String × Json)} (hnamed : MeansNamed named docs) :
    ∃ found, (shapes.map (·.1)).mapM (fieldNamed? named) = some found ∧ Shape.readFields? shapes found = some data := by
  cases h with
  | nil => exact ⟨[], rfl, by rw [Shape.readFields?]⟩
  | @found name s doc d shapes _ data hfilter hd h =>
    rw [areProper, Bool.and_eq_true] at hshapes
    obtain ⟨found, hfound, hread⟩ := exists_fields_of_reads h hshapes.2 hnamed
    have hone := hnamed.filter name
    rw [hfilter] at hone
    obtain ⟨⟨name', j⟩, rest, ⟨rfl, hj⟩, hrest, heq⟩ := List.forall₂_cons_right_iff.1 hone
    obtain rfl := List.forall₂_nil_right_iff.1 hrest
    refine ⟨.value j :: found, ?_, ?_⟩
    · rw [List.map_cons, List.mapM_cons, fieldNamed?, heq, hfound]
      rfl
    · rw [Shape.readFields?, read?_of_reads hd hshapes.1 hj, Option.bind_some, hread, Option.map_some]
  | @missing name s shapes _ data hfilter h =>
    rw [areProper, Bool.and_eq_true] at hshapes
    obtain ⟨found, hfound, hread⟩ := exists_fields_of_reads h hshapes.2 hnamed
    have hnone := hnamed.filter name
    rw [hfilter] at hnone
    have heq := List.forall₂_nil_right_iff.1 hnone
    refine ⟨.missing :: found, ?_, ?_⟩
    · rw [List.map_cons, List.mapM_cons, fieldNamed?, heq, hfound]
      rfl
    · rw [Shape.readFields?, hread]
      · rfl
      · rfl

end

/-- The workbench writes and reads as it is documented. -/
theorem documented_serializer : serializer.Documented where
  writes _ d _ _ := ⟨id, _, fun _ => .refl _, rfl, spells_pretty (d.document id)⟩
  reads shape doc d text hproper hreads _ hspells := by
    obtain ⟨j, hmeans, hparse⟩ := exists_parse?_of_spells hspells
    exact (congrArg (Option.bind · shape.read?) hparse).trans (read?_of_reads hreads hproper hmeans)

end ClusterPlan.Json
