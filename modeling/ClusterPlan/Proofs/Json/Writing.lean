import ClusterPlan.Json.Serializer
import ClusterPlan.Proofs.Text.Quoting

/-!
# Writing JSON texts

The text with a line for each field and item stands for the JSON value that was to be written (`spells_pretty`).
-/

namespace ClusterPlan.Json

open Document (SpellsText Spells SpellsItems SpellsFields)

/-- A line break and the indentation after it are blank. -/
theorem blank_newline (level : Nat) : Document.Blank (newline level) :=
  List.forall_mem_cons.2 ⟨Or.inr (Or.inl rfl), fun _ hc => Or.inl (List.eq_of_mem_replicate hc)⟩

theorem blank_nil : Document.Blank [] := nofun

theorem blank_space : Document.Blank [' '] := List.forall_mem_singleton.2 (Or.inl rfl)

/-- An escaped text between quotes stands for the text. -/
theorem spellsText_quote (s : String) : SpellsText s (quote (Text.Quoted.encode s.toList)) :=
  .quote (Text.Quoted.quotes_encode s.toList)

mutual

/-- A value that stands at some level. -/
theorem spells_prettyChars : ∀ (level : Nat) (doc : Document), Spells doc (prettyChars level doc.toJson)
  | _, .null => by rw [Document.toJson, prettyChars]; exact .null
  | _, .bool true => by rw [Document.toJson, prettyChars]; exact .boolTrue
  | _, .bool false => by rw [Document.toJson, prettyChars]; exact .boolFalse
  | _, .int i => by rw [Document.toJson, int, prettyChars]; exact .int i
  | _, .text s => by rw [Document.toJson, text, prettyChars]; exact .text (spellsText_quote s)
  | _, .array [] => by
    rw [Document.toJson, Document.itemsToJson, prettyChars]
    exact .noItems blank_nil
  | level, .array (doc :: docs) => by
    have hitems := spells_prettyItems level (doc :: docs) (List.cons_ne_nil _ _)
    rw [Document.itemsToJson] at hitems
    rw [Document.toJson, Document.itemsToJson, prettyChars]
    · exact .array hitems
    · exact List.cons_ne_nil _ _
  | _, .object [] => by
    rw [Document.toJson, Document.fieldsToJson, prettyChars]
    exact .noFields blank_nil
  | level, .object ((name, doc) :: docs) => by
    have hfields := spells_prettyFields level ((name, doc) :: docs) (List.cons_ne_nil _ _)
    rw [Document.fieldsToJson] at hfields
    rw [Document.toJson, Document.fieldsToJson, prettyChars]
    · exact .object hfields
    · exact List.cons_ne_nil _ _

/-- The items of an array, each on its own line. -/
theorem spells_prettyItems : ∀ (level : Nat) (docs : List Document), docs ≠ [] →
    SpellsItems docs (prettyItems level (Document.itemsToJson docs))
  | _, [], h => absurd rfl h
  | level, [doc], _ => by
    rw [Document.itemsToJson, Document.itemsToJson, prettyItems, List.append_assoc, List.append_assoc]
    exact .last (blank_newline _) (spells_prettyChars (level + 1) doc) (blank_newline _)
  | level, doc :: doc' :: docs, _ => by
    have hitems := spells_prettyItems level (doc' :: docs) (List.cons_ne_nil _ _)
    rw [Document.itemsToJson] at hitems
    rw [Document.itemsToJson, Document.itemsToJson, prettyItems, List.append_assoc]
    · exact .cons (blank_newline _) (spells_prettyChars (level + 1) doc) blank_nil hitems
    · exact List.cons_ne_nil _ _

/-- The fields of an object, each on its own line. -/
theorem spells_prettyFields : ∀ (level : Nat) (docs : List (String × Document)), docs ≠ [] →
    SpellsFields docs (prettyFields level (Document.fieldsToJson docs))
  | _, [], h => absurd rfl h
  | level, [(name, doc)], _ => by
    rw [Document.fieldsToJson, Document.fieldsToJson, prettyFields]
    simp only [List.append_assoc, List.cons_append]
    exact .last (blank_newline _) (spellsText_quote name) blank_nil blank_space (spells_prettyChars (level + 1) doc)
      (blank_newline _)
  | level, (name, doc) :: (name', doc') :: docs, _ => by
    have hfields := spells_prettyFields level ((name', doc') :: docs) (List.cons_ne_nil _ _)
    rw [Document.fieldsToJson] at hfields
    rw [Document.fieldsToJson, Document.fieldsToJson, prettyFields]
    · simp only [List.append_assoc, List.cons_append]
      exact .cons (blank_newline _) (spellsText_quote name) blank_nil blank_space (spells_prettyChars (level + 1) doc) blank_nil
        hfields
    · exact List.cons_ne_nil _ _

end

/-- What is written for a JSON value stands for it. -/
theorem spells_pretty (doc : Document) : Spells doc doc.toJson.pretty.toList := by
  rw [pretty, String.toList_ofList]
  exact spells_prettyChars 0 doc

end ClusterPlan.Json
