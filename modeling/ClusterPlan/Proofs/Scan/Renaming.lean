import ClusterPlan.Scan.Order
import ClusterPlan.Proofs.Plan.Renaming

/-!
# Orders of renamed scans

Expressions are compared by what they mention, so that an injective renaming makes no two expressions the same that were not,
and tells none apart that were (`Expr.same_rename`). An order decision does nothing with expressions but compare them; it is the
same for a renamed scan and renamed targets (`Scan.effectiveness_rename`).
-/

namespace ClusterPlan

variable {ρ : Renaming}

/-! ## Expressions -/

/-- A renaming that keeps things different keeps the sources of columns different. -/
theorem ColumnSource.rename_injective (hρ : ρ.Injective) : Function.Injective (ColumnSource.rename ρ) := by
  intro a b h
  cases a with
  | table s =>
    cases b with
    | table s' => exact congrArg _ (hρ.entity _ (ColumnSource.table.inj h))
    | node id => cases h
  | node id =>
    cases b with
    | table s => cases h
    | node id' => exact congrArg _ (hρ.planNode (ColumnSource.node.inj h))

/-- A column with a renamed source is equal to another one exactly if the columns are equal. -/
theorem ColumnRef.rename_beq (hρ : ρ.Injective) (c c' : ColumnRef) :
    ({ c with source := c.source.rename ρ } == { c' with source := c'.source.rename ρ }) = (c == c') := by
  rw [Bool.eq_iff_iff, beq_iff_eq, beq_iff_eq, ColumnRef.mk.injEq, (ColumnSource.rename_injective hρ).eq_iff,
    ← ColumnRef.mk.injEq]

/-- Renamed comparisons are the same exactly if the comparisons are. -/
theorem ComparisonHead.rename_beq (hρ : ρ.Injective) (c c' : ComparisonHead) :
    ({ c with id := ρ.condition c.id } == { c' with id := ρ.condition c'.id }) = (c == c') := by
  rw [Bool.eq_iff_iff, beq_iff_eq, beq_iff_eq, ComparisonHead.mk.injEq, hρ.condition.eq_iff, ← ComparisonHead.mk.injEq]

mutual

/-- Two renamed expressions are the same exactly if the expressions are. -/
theorem Expr.same_rename (hρ : ρ.Injective) : ∀ a b : Expr, (a.rename ρ).same (b.rename ρ) = a.same b
  -- Expressions of different kinds are never the same. An aggregate is split further, as its operand is optional.
  | .constant _ _, b | .parameter _ _, b => by
    cases b with
    | aggregate _ operand => cases operand <;> simp only [Expr.rename, Expr.same]
    | _ => simp only [Expr.rename, Expr.same]
  | .column c, b => by
    cases b with
    | aggregate _ operand => cases operand <;> simp only [Expr.rename, Expr.same]
    | column c' => simp only [Expr.rename, Expr.same, ColumnRef.rename_beq hρ]
    | _ => simp only [Expr.rename, Expr.same]
  | .subquery _ p _, b => by
    cases b with
    | aggregate _ operand => cases operand <;> simp only [Expr.rename, Expr.same]
    | subquery _ p' _ =>
      have hid : (ρ.planNode p.id == ρ.planNode p'.id) = (p.id == p'.id) := by
        rw [Bool.eq_iff_iff, beq_iff_eq, beq_iff_eq, hρ.planNode.eq_iff]
      simp only [Expr.rename, Expr.same, Plan.id_rename, hid]
    | _ => simp only [Expr.rename, Expr.same]
  | .cast e _, b => by
    cases b with
    | aggregate _ operand => cases operand <;> simp only [Expr.rename, Expr.same]
    | cast e' _ => simp only [Expr.rename, Expr.same, Expr.same_rename hρ e e']
    | _ => simp only [Expr.rename, Expr.same]
  | .call _ es, b => by
    cases b with
    | aggregate _ operand => cases operand <;> simp only [Expr.rename, Expr.same]
    | call _ es' => simp only [Expr.rename, Expr.same, Expr.sameAll_rename hρ es es']
    | _ => simp only [Expr.rename, Expr.same]
  | .aggregate _ none, b => by
    cases b with
    | aggregate _ operand => cases operand <;> simp only [Expr.rename, Expr.same]
    | _ => simp only [Expr.rename, Expr.same]
  | .aggregate _ (some e), b => by
    cases b with
    | aggregate _ operand =>
      cases operand with
      | none => simp only [Expr.rename, Expr.same]
      | some e' => simp only [Expr.rename, Expr.same, Expr.same_rename hρ e e']
    | _ => simp only [Expr.rename, Expr.same]
  | .comparison c l r, b => by
    cases b with
    | aggregate _ operand => cases operand <;> simp only [Expr.rename, Expr.same]
    | comparison c' l' r' =>
      simp only [Expr.rename, Expr.same, ComparisonHead.rename_beq hρ, Expr.same_rename hρ l l', Expr.same_rename hρ r r']
    | _ => simp only [Expr.rename, Expr.same]
  | .logical _ es, b => by
    cases b with
    | aggregate _ operand => cases operand <;> simp only [Expr.rename, Expr.same]
    | logical _ es' => simp only [Expr.rename, Expr.same, Expr.sameAll_rename hρ es es']
    | _ => simp only [Expr.rename, Expr.same]
  | .inList e es, b => by
    cases b with
    | aggregate _ operand => cases operand <;> simp only [Expr.rename, Expr.same]
    | inList e' es' =>
      simp only [Expr.rename, Expr.same, Expr.same_rename hρ e e', Expr.sameAll_rename hρ es es']
    | _ => simp only [Expr.rename, Expr.same]
  | .special _ es, b => by
    cases b with
    | aggregate _ operand => cases operand <;> simp only [Expr.rename, Expr.same]
    | special _ es' => simp only [Expr.rename, Expr.same, Expr.sameAll_rename hρ es es']
    | _ => simp only [Expr.rename, Expr.same]

/-- Renamed lists of expressions are the same exactly if the lists are. -/
theorem Expr.sameAll_rename (hρ : ρ.Injective) :
    ∀ as bs : List Expr, Expr.sameAll (Expr.renameAll ρ as) (Expr.renameAll ρ bs) = Expr.sameAll as bs
  | [], [] => rfl
  | [], _ :: _ => rfl
  | _ :: _, [] => rfl
  | a :: as, b :: bs => by
    simp only [Expr.renameAll, Expr.sameAll, Expr.same_rename hρ a b, Expr.sameAll_rename hρ as bs]

end

/-! ## Required orders and scans -/

/-- A column with its direction, renamed. -/
def renameDirected (ρ : Renaming) (c : Expr × Bool) : Expr × Bool := (c.1.rename ρ, c.2)

def RequiredOrder.rename (ρ : Renaming) : RequiredOrder → RequiredOrder
  | orderBy targets => orderBy (targets.map (renameDirected ρ))
  | groupBy targets => groupBy (targets.map (·.rename ρ))
  | distinct targets => distinct (targets.map (·.rename ρ))
  | minMax operand => minMax (operand.rename ρ)

namespace Scan

/-- The scan that reads the rows has its columns renamed, and its directions and its prefix as they were. -/
theorem output_rename (ρ : Renaming) : ∀ s : Scan,
    (s.rename ρ).output.ordering = s.output.ordering.map (·.rename ρ) ∧ (s.rename ρ).output.ascending = s.output.ascending ∧
      (s.rename ρ).output.equalityCount = s.output.equalityCount
  | single head s => by
    simp only [Scan.rename, output, SingleScan.equalityCount, Expr.renameAll_eq, Expr.renameRows_eq, List.length_map]
    exact ⟨trivial, trivial, rfl⟩
  | intersect head n a b => by
    rw [Scan.rename, output, output]
    exact output_rename ρ a

/-- The columns of a renamed scan are the renamed ones in the same directions. -/
theorem ordering_rename (ρ : Renaming) (s : Scan) : (s.rename ρ).ordering = s.ordering.map (renameDirected ρ) := by
  obtain ⟨hordering, hascending, -⟩ := s.output_rename ρ
  rw [ordering, hordering, hascending, List.zip_map_left, ordering]
  rfl

/-- A renamed scan fixes as many columns. -/
theorem equalityCount_rename (ρ : Renaming) (s : Scan) : (s.rename ρ).equalityCount = s.equalityCount :=
  (s.output_rename ρ).2.2

/-- The fixed columns of a renamed scan are the renamed ones. -/
theorem fixedColumns_rename (ρ : Renaming) (s : Scan) : (s.rename ρ).fixedColumns = s.fixedColumns.map (renameDirected ρ) := by
  rw [fixedColumns, ordering_rename, equalityCount_rename, ← List.map_take, fixedColumns]

/-- The free columns of a renamed scan are the renamed ones. -/
theorem freeColumns_rename (ρ : Renaming) (s : Scan) : (s.rename ρ).freeColumns = s.freeColumns.map (renameDirected ρ) := by
  rw [freeColumns, ordering_rename, equalityCount_rename, ← List.map_drop, freeColumns]

variable (hρ : ρ.Injective)
include hρ

/-- A renamed expression is among renamed columns exactly if the expression is among the columns. -/
theorem hasColumn_rename (columns : List (Expr × Bool)) (e : Expr) :
    hasColumn (columns.map (renameDirected ρ)) (e.rename ρ) = hasColumn columns e := by
  rw [hasColumn, List.any_map, hasColumn]
  exact congrArg columns.any (funext fun c => Expr.same_rename hρ c.1 e)

/-- Renamed targets take renamed columns as the targets take the columns. -/
theorem takeTargets_rename (fixed free targets : List (Expr × Bool)) :
    takeTargets (fixed.map (renameDirected ρ)) (free.map (renameDirected ρ)) (targets.map (renameDirected ρ)) =
      takeTargets fixed free targets := by
  induction targets generalizing free with
  | nil => cases free <;> rfl
  | cons target targets ih =>
    obtain ⟨e, ascending⟩ := target
    cases free with
    | nil =>
      have hrest := ih []
      rw [List.map_nil] at hrest
      simp only [List.map_cons, List.map_nil, takeTargets, renameDirected, hasColumn_rename hρ, hrest]
    | cons column free =>
      have hrest := ih (column :: free)
      rw [List.map_cons] at hrest
      simp only [List.map_cons, takeTargets]
      rw [hrest, ih free]
      simp only [renameDirected, hasColumn_rename hρ, Expr.same_rename hρ]

/-- Whether a scan is sorted, and in which direction, does not change by a renaming. -/
theorem sortedBackwards?_rename (s : Scan) (targets : List (Expr × Bool)) :
    (s.rename ρ).sortedBackwards? (targets.map (renameDirected ρ)) = s.sortedBackwards? targets := by
  rw [sortedBackwards?, fixedColumns_rename, freeColumns_rename, takeTargets_rename hρ, List.length_map, List.length_map,
    sortedBackwards?]

/-- Whether a target is grouped does not change by a renaming. -/
theorem groupedTarget_rename (s : Scan) (n : Nat) (target : Expr) :
    (s.rename ρ).groupedTarget n (target.rename ρ) = s.groupedTarget n target := by
  have hsame : (fun c : Expr × Bool => c.1.same (target.rename ρ)) ∘ renameDirected ρ = fun c => c.1.same target :=
    funext fun c => Expr.same_rename hρ c.1 target
  rw [groupedTarget, freeColumns_rename, List.findIdx?_map, hsame, fixedColumns_rename, hasColumn_rename hρ, groupedTarget]

/-- How well the targets are grouped does not change by a renaming. -/
theorem grouping_rename (s : Scan) (targets : List Expr) :
    (s.rename ρ).grouping (targets.map (·.rename ρ)) = s.grouping targets := by
  have hfound : (targets.map (·.rename ρ)).map ((s.rename ρ).groupedTarget targets.length) =
      targets.map (s.groupedTarget targets.length) := by
    rw [List.map_map]
    exact congrArg targets.map (funext fun target => groupedTarget_rename hρ s _ target)
  rw [grouping, List.length_map, hfound, grouping]

/-- What is decided for a renamed scan and renamed targets is what is decided for the scan and the targets. -/
theorem effectiveness_rename (s : Scan) (required : RequiredOrder) :
    (s.rename ρ).effectiveness (required.rename ρ) = s.effectiveness required := by
  cases required with
  | orderBy targets =>
    have htargets : (targets.map (renameDirected ρ)).map (·.1) = (targets.map (·.1)).map (·.rename ρ) := by
      rw [List.map_map, List.map_map]
      rfl
    rw [RequiredOrder.rename, effectiveness, sortedBackwards?_rename hρ, htargets, grouping_rename hρ, effectiveness]
  | groupBy targets => rw [RequiredOrder.rename, effectiveness, grouping_rename hρ, effectiveness]
  | distinct targets => rw [RequiredOrder.rename, effectiveness, grouping_rename hρ, effectiveness]
  | minMax operand =>
    have hsame : (fun c : Expr × Bool => (renameDirected ρ c).1.same (operand.rename ρ)) = fun c => c.1.same operand :=
      funext fun c => Expr.same_rename hρ c.1 operand
    rw [RequiredOrder.rename, effectiveness, ordering_rename, equalityCount_rename, List.getElem?_map, Option.any_map, hsame,
      effectiveness]

end Scan

end ClusterPlan
