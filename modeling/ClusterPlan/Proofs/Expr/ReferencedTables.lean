import ClusterPlan.Proofs.Context.Entity
import ClusterPlan.Proofs.Plan.WalkLog

/-!
# The tables of an expression

`Expr.tables` lists the table sources of the columns of an expression in the order in which a walk meets them, without the
plans of subqueries. The referenced tables are the same sources in ascending order, each once (`mem_referencedTables_iff`,
`ascending_referencedTables`); they are those of the columns that occur at any depth of operands (`mem_tables_iff`).
-/

namespace ClusterPlan

/-- The table source that a column refers to, if it refers to one. -/
def ColumnSource.tables : ColumnSource → List SourceId
  | table s => [s]
  | node _ => []

namespace Expr

/-- An expression occurs in another one: it is the other one, an operand of it, an operand of an operand, and so on. The plans of
subqueries are no operands. -/
def OccursIn (c e : Expr) : Prop := Relation.ReflTransGen (fun x y => x ∈ y.children) c e

/-- What occurs in an expression is the expression or occurs in an operand. -/
theorem occursIn_iff {c e : Expr} : c.OccursIn e ↔ c = e ∨ ∃ operand ∈ e.children, c.OccursIn operand := by
  rw [OccursIn, Relation.ReflTransGen.cases_tail_iff]
  refine or_congr eq_comm ⟨?_, ?_⟩
  · rintro ⟨operand, hoccurs, hoperand⟩
    exact ⟨operand, hoperand, hoccurs⟩
  · rintro ⟨operand, hoperand, hoccurs⟩
    exact ⟨operand, hoccurs, hoperand⟩

mutual

/-- The table sources of the columns in an expression, one for each column, in the order of a walk. -/
def tables : Expr → List SourceId
  | constant _ _ | parameter _ _ | subquery _ _ _ | aggregate _ none => []
  | column c => c.source.tables
  | cast operand _ | aggregate _ (some operand) => operand.tables
  | call _ operands | logical _ operands | special _ operands => tablesAll operands
  | comparison _ left right => left.tables ++ right.tables
  | inList operand list => operand.tables ++ tablesAll list

def tablesAll : List Expr → List SourceId
  | [] => []
  | e :: es => e.tables ++ tablesAll es

end

/-- The sources in a list of expressions are those of its elements in turn. -/
theorem tablesAll_eq (es : List Expr) : tablesAll es = es.flatMap tables := by
  induction es with
  | nil => rfl
  | cons e es ih => rw [tablesAll, ih, List.flatMap_cons]

/-- The sources of an expression are its own and those of its operands. -/
theorem tables_eq (e : Expr) : e.tables = e.tableSource?.toList ++ e.children.flatMap tables := by
  cases e with
  | constant | parameter | subquery => rw [tables]; rfl
  | column c =>
    obtain ⟨source, position, name, type⟩ := c
    cases source <;> rw [tables] <;> rfl
  | cast => rw [tables]; exact (List.flatMap_singleton _ _).symm
  | call | logical | special => rw [tables, tablesAll_eq]; rfl
  | comparison c left right => rw [tables]; exact congrArg _ (List.flatMap_singleton _ _).symm
  | inList operand list => rw [tables, tablesAll_eq]; rfl
  | aggregate f operand =>
    cases operand with
    | none => rw [tables]; rfl
    | some operand => rw [tables]; exact (List.flatMap_singleton _ _).symm

/-- Only a column refers to a table source by itself. -/
theorem tableSource?_eq_some_iff {e : Expr} {s : SourceId} :
    e.tableSource? = some s ↔ ∃ c : ColumnRef, c.source = .table s ∧ e = column c := by
  constructor
  · intro h
    cases e with
    | column c =>
      obtain ⟨source, position, name, type⟩ := c
      cases source with
      | table t => exact ⟨_, congrArg ColumnSource.table (Option.some.inj h), rfl⟩
      | node id => cases h
    | _ => cases h
  · rintro ⟨⟨source, position, name, type⟩, rfl, rfl⟩
    rfl

/-- These are the sources of the columns that occur in the expression. -/
theorem mem_tables_iff {e : Expr} {s : SourceId} :
    s ∈ e.tables ↔ ∃ c : ColumnRef, c.source = .table s ∧ (column c).OccursIn e := by
  induction e using Expr.inductionOn with
  | h e ih =>
    rw [tables_eq, List.mem_append, Option.mem_toList, tableSource?_eq_some_iff, List.mem_flatMap]
    constructor
    · rintro (⟨c, hc, rfl⟩ | ⟨operand, hoperand, hs⟩)
      · exact ⟨c, hc, .refl⟩
      · obtain ⟨c, hc, hoccurs⟩ := (ih operand hoperand).1 hs
        exact ⟨c, hc, occursIn_iff.2 (Or.inr ⟨operand, hoperand, hoccurs⟩)⟩
    · rintro ⟨c, hc, hoccurs⟩
      obtain rfl | ⟨operand, hoperand, hoccurs⟩ := occursIn_iff.1 hoccurs
      · exact Or.inl ⟨c, hc, rfl⟩
      · exact Or.inr ⟨operand, hoperand, (ih operand hoperand).2 ⟨c, hc, hoccurs⟩⟩

end Expr

/-! ## The collector -/

/-- After an insertion the list holds the new source and those that it held. -/
theorem mem_insertSource {s t : SourceId} {ts : List SourceId} : t ∈ insertSource s ts ↔ t = s ∨ t ∈ ts := by
  induction ts with
  | nil => rw [insertSource, List.mem_singleton, or_iff_left List.not_mem_nil]
  | cons first ts ih =>
    rw [insertSource]
    split
    · next heq =>
      subst heq
      rw [List.mem_cons, or_self_left]
    · split
      · exact List.mem_cons
      · rw [List.mem_cons, ih, List.mem_cons, or_left_comm]

/-- Sources in ascending order, each once. -/
def Ascending (ts : List SourceId) : Prop := ts.Pairwise fun s t => s.index < t.index

/-- In ascending order no source stands twice. -/
theorem Ascending.nodup {ts : List SourceId} (h : Ascending ts) : ts.Nodup := by
  refine List.Pairwise.imp ?_ h
  rintro s _ hlt rfl
  exact Nat.lt_irrefl _ hlt

/-- An insertion keeps the order, and puts in no source a second time. -/
theorem Ascending.insertSource {ts : List SourceId} (h : Ascending ts) (s : SourceId) : Ascending (insertSource s ts) := by
  induction ts with
  | nil => exact List.pairwise_singleton _ s
  | cons first ts ih =>
    obtain ⟨hfirst, hts⟩ := List.pairwise_cons.1 h
    rw [ClusterPlan.insertSource]
    split
    · exact h
    · next hne =>
      split
      · next hlt => exact List.pairwise_cons.2 ⟨List.forall_mem_cons.2 ⟨hlt, fun t ht => Nat.lt_trans hlt (hfirst t ht)⟩, h⟩
      · next hnot =>
        refine List.pairwise_cons.2 ⟨fun t ht => ?_, ih hts⟩
        obtain rfl | ht := mem_insertSource.1 ht
        · exact Nat.lt_of_le_of_ne (Nat.le_of_not_lt hnot) fun heq => hne (Ref.eq_of_index heq.symm)
        · exact hfirst t ht

/-- Puts sources into a list one after the other. -/
def insertSources (ts into : List SourceId) : List SourceId := ts.foldl (fun into t => insertSource t into) into

/-- After some insertions the list holds the new sources and those that it held. -/
theorem mem_insertSources {s : SourceId} {ts into : List SourceId} : s ∈ insertSources ts into ↔ s ∈ ts ∨ s ∈ into := by
  induction ts generalizing into with
  | nil => exact (or_iff_right List.not_mem_nil).symm
  | cons t ts ih => rw [insertSources, List.foldl_cons, ← insertSources, ih, mem_insertSource, List.mem_cons, or_left_comm, or_assoc]

/-- Insertions one after the other keep the order. -/
theorem Ascending.insertSources {into : List SourceId} (h : Ascending into) (ts : List SourceId) :
    Ascending (insertSources ts into) := by
  induction ts generalizing into with
  | nil => exact h
  | cons t ts ih => exact ih (h.insertSource t)

namespace Expr

/-- A visit puts in the source of a column, and the walk goes on. -/
theorem run_visitExpr (e : Expr) (into : List SourceId) :
    (sourceCollector.visitExpr e).run into = (true, insertSources e.tableSource?.toList into) := by
  cases hsource : e.tableSource? with
  | none | some s =>
    simp only [sourceCollector, hsource]
    rfl

/-- A walk puts the sources of the columns that it meets into the list. -/
theorem run_sourceCollector (e : Expr) (into : List SourceId) :
    (e.accept sourceCollector).run into = (true, insertSources e.tables into) := by
  induction e using Expr.inductionOn generalizing into with
  | h e ih =>
    have hleads : e.accept sourceCollector = if e.isLeaf then sourceCollector.visitExpr e else
        sourceCollector.aroundOf (.expr e) (series (e.children.map fun operand => operand.accept sourceCollector)) := by
      have hinputs : (Subject.expr e).inputs.map (Subject.accept sourceCollector) =
        e.children.map fun operand => operand.accept sourceCollector := List.map_map
      rw [← hinputs]
      exact leads_accept sourceCollector (.expr e)
    have hoperands := run_series (fun operand hoperand into => ih operand hoperand into) into
    rw [hleads, tables_eq]
    by_cases hleaf : e.isLeaf
    · have hnone : e.children = [] := by
        cases e with
        | constant | parameter | column => rfl
        | _ => cases hleaf
      rw [if_pos hleaf, run_visitExpr, hnone, List.flatMap_nil, List.append_nil]
    · have hown : e.tableSource? = none := by
        cases e with
        | column => exact absurd rfl hleaf
        | _ => rfl
      have henter : (sourceCollector.enterOf (.expr e)).run into = (true, into) := rfl
      have hleave (into : List SourceId) : (sourceCollector.leaveOf (.expr e)).run into = (true, into) := rfl
      rw [if_neg hleaf, Visitor.run_aroundOf, henter, if_pos rfl, hoperands, hleave, hown, insertSources, Option.toList_none,
        List.nil_append, List.foldl_flatMap]
      rfl

/-- The referenced sources are those of the columns in the expression. -/
theorem mem_referencedTables_iff {e : Expr} {s : SourceId} : s ∈ e.referencedTables ↔ s ∈ e.tables := by
  rw [referencedTables, run_sourceCollector, mem_insertSources, or_iff_left List.not_mem_nil]

/-- The referenced sources are in ascending order. -/
theorem ascending_referencedTables (e : Expr) : Ascending e.referencedTables := by
  rw [referencedTables, run_sourceCollector]
  exact Ascending.insertSources List.Pairwise.nil e.tables

end Expr

end ClusterPlan
