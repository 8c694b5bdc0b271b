import ClusterPlan.Catalog.Table
import Mathlib.Data.List.Basic

/-!
# Hierarchies of tables

A table stands in the hierarchy of the root table that its chain of parents begins with, and below each table of that chain.
Ids tell tables apart in the sets of tables that they identify (`Identified`).
-/

namespace ClusterPlan.Catalog.Table

/-- Two tables stand below the same root table. -/
def SameHierarchy (a b : Table) : Prop := a.ancestors.head? = b.ancestors.head?

instance (a b : Table) : Decidable (a.SameHierarchy b) :=
  inferInstanceAs (Decidable (a.ancestors.head? = b.ancestors.head?))

/-- At least the table itself is in the list of the tables above it. -/
theorem ancestors_ne_nil (t : Table) : t.ancestors ≠ [] := by
  cases t <;> simp [ancestors]

/-- A table stands in the hierarchy of its parent. -/
theorem head?_ancestors_child (info : TableInfo) (key : List (String × String)) (parent : Table) :
    (child info key parent).ancestors.head? = parent.ancestors.head? := by
  rw [ancestors, List.head?_append_of_ne_nil _ parent.ancestors_ne_nil]

/-- A hierarchy has one table without a parent. -/
theorem SameHierarchy.eq_of_parent? {a b : Table} (h : a.SameHierarchy b) (ha : a.parent? = none) (hb : b.parent? = none) :
    a = b := by
  cases a with
  | root => cases b with
    | root => exact Option.some.inj h
    | child => cases hb
  | child => cases ha

/-- A set of tables that their ids identify. It has the parents of its tables. -/
structure Identified (T : Table → Prop) : Prop where
  ids : ∀ a b, T a → T b → a.id = b.id → a = b
  parents : ∀ a p, T a → a.parent? = some p → T p

/-! ## Tables above tables -/

/-- Each table is an ancestor of itself. -/
theorem isAncestorOf_self (t : Table) : t.isAncestorOf t = true := by
  cases t <;> simp [isAncestorOf, id, info]

/-- What is above the parent of a table is above the table. -/
theorem isAncestorOf_of_parent? {a t parent : Table} (hp : t.parent? = some parent) (h : a.isAncestorOf parent = true) :
    a.isAncestorOf t = true := by
  cases t with
  | root => cases hp
  | child info key p =>
    cases hp
    rw [isAncestorOf, h, Bool.or_true]

/-- What is above a table is the table, or above its parent. -/
theorem isAncestorOf_cases {a t : Table} (h : a.isAncestorOf t = true) :
    a.id = t.id ∨ ∃ parent, t.parent? = some parent ∧ a.isAncestorOf parent = true := by
  cases t with
  | root info =>
    rw [isAncestorOf, beq_iff_eq] at h
    exact Or.inl h
  | child info key parent =>
    rw [isAncestorOf, Bool.or_eq_true, beq_iff_eq] at h
    exact h.imp_right fun h => ⟨parent, rfl, h⟩

end ClusterPlan.Catalog.Table
