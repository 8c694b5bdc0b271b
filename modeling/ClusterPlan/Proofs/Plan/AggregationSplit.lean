import ClusterPlan.Proofs.Plan.Aggregation
import Mathlib.Data.List.Forall2

/-!
# What a split keeps

The split of an aggregation takes every aggregate apart: its operand becomes a field of the projection, its function, overload
and option stay behind in lists of their own. Two aggregations whose aggregates have operands give the same fields and leave
the same lists exactly if their aggregates agree in those four (`split_alike_iff`). DISTINCT is in none of the lists, so that
COUNT(DISTINCT x) and COUNT(x) are one aggregate after the split (`split_forgets_distinct`).
-/

namespace ClusterPlan

namespace Aggregation

open List (Forall₂)

/-- An aggregation with grouping expressions and aggregates that have operands. -/
def resolved (id : Int) (op : AggregateOp) (groupBy : List Expr) (aggregates : List (AggregateHead × Expr)) : Aggregation :=
  ⟨id, op, .resolved groupBy (aggregates.map fun x => .aggregate x.1 (some x.2))⟩

/-- Two aggregates agree in what the split hands out and in what it leaves. -/
structure Alike (R : Expr → Expr → Prop) (x y : AggregateHead × Expr) : Prop where
  function : x.1.function = y.1.function
  operand : R x.2 y.2
  option : x.1.option = y.1.option
  overload : x.1.overload = y.1.overload

/-- Two aggregates agree in DISTINCT as well. -/
structure Equal (R : Expr → Expr → Prop) (x y : AggregateHead × Expr) : Prop extends Alike R x y where
  distinct : x.1.distinct = y.1.distinct

/-- The split hands out grouping expressions and operands, and leaves the names, overloads and options. -/
theorem splitOffProject_resolved (id : Int) (op : AggregateOp) (groupBy : List Expr)
    (aggregates : List (AggregateHead × Expr)) :
    (resolved id op groupBy aggregates).splitOffProject = (.ok (groupBy ++ aggregates.map (·.2)), ⟨id, op, .split
      ⟨groupBy.length, aggregates.map (·.1.function), aggregates.map (·.1.overload), aggregates.map (·.1.option)⟩⟩) := by
  have hholds : (resolved id op groupBy aggregates).Holds groupBy (aggregates.map fun x => (x.1, some x.2)) := by
    refine Or.inr ?_
    rw [List.map_map]
    rfl
  have hfields : (fieldList groupBy (aggregates.map fun x => (x.1, some x.2))).map AggregateField.operand =
      groupBy ++ aggregates.map (·.2) := by
    simp [fieldList, AggregateField.operand, Function.comp_def]
  have hleft : leftOver groupBy (aggregates.map fun x => (x.1, some x.2)) = ⟨groupBy.length, aggregates.map (·.1.function),
      aggregates.map (·.1.overload), aggregates.map (·.1.option)⟩ := by
    simp [leftOver, AggregateHead.remnant, Function.comp_def]
  rw [hholds.splitOffProject, hfields, hleft]
  rfl

/-- Lists have the same images exactly if their elements have, one by one. -/
theorem map_eq_map_iff_forall₂ {α β : Type} {f : α → β} {xs ys : List α} :
    xs.map f = ys.map f ↔ Forall₂ (fun x y => f x = f y) xs ys := by
  rw [← List.forall₂_eq_eq_eq, List.forall₂_map_left_iff, List.forall₂_map_right_iff]

/-- Lists of which the first parts are equally long are related exactly if both parts are. -/
theorem forall₂_append_iff {α : Type} {R : α → α → Prop} {as as' bs bs' : List α} (hlength : as.length = as'.length) :
    Forall₂ R (as ++ bs) (as' ++ bs') ↔ Forall₂ R as as' ∧ Forall₂ R bs bs' := by
  constructor
  · intro h
    have htake := List.forall₂_take as.length h
    have hdrop := List.forall₂_drop as.length h
    rw [List.take_left, hlength, List.take_left] at htake
    rw [List.drop_left, hlength, List.drop_left] at hdrop
    exact ⟨htake, hdrop⟩
  · rintro ⟨has, hbs⟩
    exact List.rel_append has hbs

section Alike

variable {R : Expr → Expr → Prop} {aggregates aggregates' : List (AggregateHead × Expr)}

/-- Aggregates agree place by place exactly if the lists of their parts do. -/
theorem forall₂_alike_iff :
    Forall₂ (Alike R) aggregates aggregates' ↔ Forall₂ R (aggregates.map (·.2)) (aggregates'.map (·.2)) ∧
      aggregates.map (·.1.function) = aggregates'.map (·.1.function) ∧
      aggregates.map (·.1.overload) = aggregates'.map (·.1.overload) ∧
      aggregates.map (·.1.option) = aggregates'.map (·.1.option) := by
  rw [List.forall₂_map_left_iff, List.forall₂_map_right_iff, map_eq_map_iff_forall₂, map_eq_map_iff_forall₂,
    map_eq_map_iff_forall₂]
  constructor
  · intro h
    exact ⟨h.imp fun _ _ hxy => hxy.operand, h.imp fun _ _ hxy => hxy.function, h.imp fun _ _ hxy => hxy.overload,
      h.imp fun _ _ hxy => hxy.option⟩
  · rintro ⟨hoperand, hfunction, hoverload, hoption⟩
    have hboth := Forall₂.mp (fun _ _ => And.intro) hoperand hfunction
    have hrest := Forall₂.mp (fun _ _ => And.intro) hoverload hoption
    exact Forall₂.mp (fun _ _ hxy hxy' => ⟨hxy.2, hxy.1, hxy'.2, hxy'.1⟩) hboth hrest

/-- Aggregates that agree in all else are equal exactly if they agree in DISTINCT. -/
theorem forall₂_equal_iff (h : Forall₂ (Alike R) aggregates aggregates') :
    Forall₂ (Equal R) aggregates aggregates' ↔ Forall₂ (fun x y => x.1.distinct = y.1.distinct) aggregates aggregates' := by
  constructor
  · intro hequal
    exact hequal.imp fun _ _ hxy => hxy.distinct
  · intro hdistinct
    exact Forall₂.mp (fun _ _ hxy hd => ⟨hxy, hd⟩) h hdistinct

end Alike

/-- Two aggregations give fields that agree and leave the same exactly if their grouping expressions agree and their aggregates
agree in function, operand, option and overload; and then the aggregates agree in everything exactly if they agree in DISTINCT.
To agree may mean to be equal, to be the same, or anything else. -/
theorem split_alike_iff (R : Expr → Expr → Prop) (id id' : Int) (op op' : AggregateOp) (groupBy groupBy' : List Expr)
    (aggregates aggregates' : List (AggregateHead × Expr)) :
    ∃ fields fields' info info',
      (resolved id op groupBy aggregates).splitOffProject = (.ok fields, ⟨id, op, .split info⟩) ∧
      (resolved id' op' groupBy' aggregates').splitOffProject = (.ok fields', ⟨id', op', .split info'⟩) ∧
      (Forall₂ R fields fields' ∧ info = info' ↔ Forall₂ R groupBy groupBy' ∧ Forall₂ (Alike R) aggregates aggregates') ∧
      (Forall₂ R fields fields' → info = info' → (Forall₂ (Equal R) aggregates aggregates' ↔
        Forall₂ (fun x y => x.1.distinct = y.1.distinct) aggregates aggregates')) := by
  have hiff : Forall₂ R (groupBy ++ aggregates.map (·.2)) (groupBy' ++ aggregates'.map (·.2)) ∧
      SplitAggregates.mk groupBy.length (aggregates.map (·.1.function)) (aggregates.map (·.1.overload))
          (aggregates.map (·.1.option)) =
        ⟨groupBy'.length, aggregates'.map (·.1.function), aggregates'.map (·.1.overload), aggregates'.map (·.1.option)⟩ ↔
      Forall₂ R groupBy groupBy' ∧ Forall₂ (Alike R) aggregates aggregates' := by
    rw [forall₂_alike_iff, SplitAggregates.mk.injEq]
    constructor
    · rintro ⟨hfields, hlength, hlists⟩
      obtain ⟨hgroupBy, hoperands⟩ := (forall₂_append_iff hlength).1 hfields
      exact ⟨hgroupBy, hoperands, hlists⟩
    · rintro ⟨hgroupBy, hoperands, hlists⟩
      exact ⟨(forall₂_append_iff hgroupBy.length_eq).2 ⟨hgroupBy, hoperands⟩, hgroupBy.length_eq, hlists⟩
  refine ⟨_, _, _, _, splitOffProject_resolved .., splitOffProject_resolved .., hiff, ?_⟩
  intro hfields hinfo
  exact forall₂_equal_iff (hiff.1 ⟨hfields, hinfo⟩).2

namespace CountedValues

/-- A count of the values or of the different values of an expression. -/
def count (distinct : Bool) : AggregateHead := .ofName "count" distinct none

/-- Such a count without grouping expressions. -/
def aggregation (distinct : Bool) : Aggregation := resolved 1 {} [] [(count distinct, .long 7)]

end CountedValues

open CountedValues in
/-- A count of different values is another aggregate than a count of all values, and the split makes them one. -/
theorem split_forgets_distinct :
    (Expr.aggregate (count true) (some (.long 7))).same (.aggregate (count false) (some (.long 7))) = false ∧
      (aggregation true).splitOffProject.1 = .ok [.long 7] ∧ (aggregation false).splitOffProject.1 = .ok [.long 7] ∧
      (aggregation true).splitOffProject.2 = (aggregation false).splitOffProject.2 := by
  refine ⟨rfl, rfl, rfl, rfl⟩

end Aggregation

end ClusterPlan
