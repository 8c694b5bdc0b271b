import ClusterPlan.Plan.Substitution
import ClusterPlan.Proofs.Plan.Aggregation
import ClusterPlan.Proofs.Stepwise
import Mathlib.Data.List.GetD

/-!
# Aggregations that fail

An operation that fails should leave an aggregation as it was. All of them do but the split, which has taken the expressions
out before it finds that one behind the grouping expressions is no aggregate, and does not put them back
(`not_atomic_of_replaced_sum`). Only a rewriting of the expressions can have brought such an expression there: failures change
nothing in all states of a run exactly if no rewriting of the run leaves one (`atomic_iff_careful`). A substitution in the plan
is one way to rewrite the expressions (`Edit.run_substitute`).
-/

namespace ClusterPlan

def Expr.isAggregate : Expr → Bool
  | aggregate _ _ => true
  | _ => false

namespace AggregatePhase

/-- Other expressions in the slots, which are counted through. -/
def rewrite {ε : Type} (f : Nat → ε → ε) : AggregatePhase ε → AggregatePhase ε
  | bare groupBy => bare (groupBy.mapIdx f)
  | resolved groupBy aggregates => resolved (groupBy.mapIdx f) (aggregates.mapIdx fun i => f (groupBy.length + i))
  | split info => split info

/-- There are only aggregates behind the grouping expressions. -/
def onlyAggregates : AggregatePhase Expr → Bool
  | resolved _ aggregates => aggregates.all Expr.isAggregate
  | bare _ | split _ => true

end AggregatePhase

namespace Aggregation

/-- An operation on an aggregation. -/
inductive Edit (σ : Type) where
  | addGroupBy (e : Expr)
  | addAggregate (f : AggregateHead) (operand : Option Expr)
  | splitOffProject
  | setMethod (m : AggregateMethod)
  | setTable (s : SourceId)
  /-- Puts any expressions in the slots. -/
  | rewrite (f : Nat → Expr → Expr)
  /-- Substitutes in the plan of the aggregation and its input. -/
  | substitute (s : Substitution σ) (limit : Nat) (st : σ) (input : Plan)

namespace Edit

variable {σ : Type}

/-- The answer of an operation, and the aggregation after it. -/
def run (a : Aggregation) : Edit σ → Except PlanError Unit × Aggregation
  | addGroupBy e => ((a.addGroupBy e).1.map fun _ => (), (a.addGroupBy e).2)
  | addAggregate f operand => ((a.addAggregate f operand).1.map fun _ => (), (a.addAggregate f operand).2)
  | splitOffProject => (a.splitOffProject.1.map fun _ => (), a.splitOffProject.2)
  | setMethod m => (.ok (), a.setMethod m)
  | setTable s => a.setTable s
  | rewrite f => (.ok (), { a with phase := a.phase.rewrite f })
  | substitute s limit st input =>
    (.ok (), ((((Plan.aggregate a.id a.op a.phase input).substitute s limit).run st).1.aggregation?).getD a)

/-- The aggregation after an operation. -/
def apply (a : Aggregation) (edit : Edit σ) : Aggregation := (edit.run a).2

def Fails (edit : Edit σ) (a : Aggregation) : Prop := ∃ error, (edit.run a).1 = .error error

/-- The operation does not rewrite expressions, or leaves only aggregates behind the grouping expressions. -/
def Careful (a : Aggregation) : Edit σ → Prop
  | rewrite f => (apply a (.rewrite f : Edit σ)).phase.onlyAggregates
  | substitute s limit st input => (apply a (.substitute s limit st input)).phase.onlyAggregates
  | addGroupBy _ | addAggregate _ _ | splitOffProject | setMethod _ | setTable _ => True

/-! ### Substitution as a rewriting -/

/-- A substitution answers with as many expressions as it is given. -/
theorem length_substituteAllWith (s : Substitution σ) (again : Expr → StateM σ Expr) (es : List Expr) (st : σ) :
    ((Expr.substituteAllWith s again es).run st).1.length = es.length := by
  induction es generalizing st with
  | nil => rfl
  | cons e es ih => exact congrArg (· + 1) (ih ((e.substituteWith s again).run st).2)

/-- Two lists are filled from a list of as many others. -/
theorem mapIdx_getD_append {α : Type} {xs xs' ys ys' : List α} (h : ys.length = xs.length) (h' : ys'.length = xs'.length) :
    xs.mapIdx (fun i x => (ys ++ ys').getD i x) = ys ∧
      xs'.mapIdx (fun i x => (ys ++ ys').getD (xs.length + i) x) = ys' := by
  constructor
  · refine List.ext_getElem (by rw [List.length_mapIdx, h]) ?_
    intro i hi hi'
    rw [List.getElem_mapIdx, List.getD_append _ _ _ _ hi', List.getD_eq_getElem _ _ hi']
  · refine List.ext_getElem (by rw [List.length_mapIdx, h']) ?_
    intro i hi hi'
    have hle : ys.length ≤ xs.length + i := by omega
    rw [List.getElem_mapIdx, List.getD_append_right _ _ _ _ hle, h, Nat.add_sub_cancel_left, List.getD_eq_getElem _ _ hi']

/-- Substituting in the plan of an aggregation is a rewriting of its slots. -/
theorem run_substitute (a : Aggregation) (s : Substitution σ) (limit : Nat) (st : σ) (input : Plan) :
    ∃ f, (Edit.substitute s limit st input).run a = (Edit.rewrite f : Edit σ).run a := by
  obtain ⟨id, op, phase⟩ := a
  let again := Expr.substituteOperands s limit
  let st₁ := ((input.substituteWith s again).run st).2
  cases phase with
  | bare groupBy =>
    have hnone : ([] : List Expr).length = ([] : List Expr).length := rfl
    obtain ⟨hgroupBy, -⟩ := mapIdx_getD_append (length_substituteAllWith s again groupBy st₁) hnone
    refine ⟨fun i e => (((Expr.substituteAllWith s again groupBy).run st₁).1 ++ []).getD i e, ?_⟩
    rw [run, run, AggregatePhase.rewrite, hgroupBy]
    rfl
  | resolved groupBy aggregates =>
    let st₂ := ((Expr.substituteAllWith s again groupBy).run st₁).2
    have hgroupBy := length_substituteAllWith s again groupBy st₁
    have haggregates := length_substituteAllWith s again aggregates st₂
    obtain ⟨hbefore, hbehind⟩ := mapIdx_getD_append hgroupBy haggregates
    refine ⟨fun i e => (((Expr.substituteAllWith s again groupBy).run st₁).1 ++
      ((Expr.substituteAllWith s again aggregates).run st₂).1).getD i e, ?_⟩
    rw [run, run, AggregatePhase.rewrite, hbefore, hbehind]
    rfl
  | split info => exact ⟨fun _ e => e, rfl⟩

end Edit

/-- An operation that fails changes nothing. -/
def Atomic (σ : Type) (a : Aggregation) : Prop := ∀ edit : Edit σ, edit.Fails a → edit.apply a = a

section Atomic

variable {σ : Type} {a : Aggregation}

/-- Expressions can be taken apart exactly if all of them are aggregates. -/
theorem isSome_takeApart (es : List Expr) : (takeApart es).isSome = es.all Expr.isAggregate := by
  induction es with
  | nil => rfl
  | cons e es ih =>
    rw [List.all_cons, ← ih]
    cases e with
    | aggregate f operand =>
      rw [takeApart, Option.isSome_map]
      rfl
    | _ => rfl

/-- All that a split can come to: it succeeds, it is refused, or it loses the fields. -/
theorem splitOffProject_cases (a : Aggregation) :
    (a.phase.onlyAggregates = true ∧ ∃ fields info, a.splitOffProject = (.ok fields, { a with phase := .split info })) ∨
    (∃ error, a.splitOffProject = (.error error, a)) ∧ (∃ info, a.phase = .split info) ∨
    (a.phase.onlyAggregates = false ∧ ∃ groupBy aggregates, a.phase = .resolved groupBy aggregates ∧
      a.splitOffProject = (.error (.internal (.fieldNotAggregate a.id)), { a with phase := .bare [] })) := by
  cases hphase : a.phase with
  | bare groupBy =>
    refine Or.inl ⟨rfl, groupBy ++ [], ?_⟩
    simp only [splitOffProject, hphase, takeApart]
    exact ⟨_, rfl⟩
  | resolved groupBy aggregates =>
    have hsome := isSome_takeApart aggregates
    cases htake : takeApart aggregates with
    | some parts =>
      rw [htake] at hsome
      refine Or.inl ⟨hsome.symm, groupBy ++ parts.1, ?_⟩
      simp only [splitOffProject, hphase, htake]
      exact ⟨_, rfl⟩
    | none =>
      rw [htake] at hsome
      refine Or.inr (Or.inr ⟨hsome.symm, groupBy, aggregates, rfl, ?_⟩)
      simp only [splitOffProject, hphase, htake]
  | split info =>
    refine Or.inr (Or.inl ⟨⟨.internal (.alreadySplit a.id), ?_⟩, info, rfl⟩)
    simp only [splitOffProject, hphase]

/-- Adding a grouping expression succeeds without touching what is behind, or fails and changes nothing. -/
theorem addGroupBy_cases (a : Aggregation) (e : Expr) :
    (∃ p, (a.addGroupBy e).1 = .ok p) ∧ (a.addGroupBy e).2.phase.onlyAggregates = a.phase.onlyAggregates ∨
      ∃ error, a.addGroupBy e = (.error error, a) := by
  unfold addGroupBy
  cases a.phase with
  | bare groupBy => exact Or.inl ⟨⟨_, rfl⟩, rfl⟩
  | resolved groupBy aggregates => exact Or.inr ⟨_, rfl⟩
  | split info => exact Or.inr ⟨_, rfl⟩

/-- Adding an aggregate succeeds and adds an aggregate, or fails and changes nothing. -/
theorem addAggregate_cases (a : Aggregation) (f : AggregateHead) (operand : Option Expr) :
    (∃ p, (a.addAggregate f operand).1 = .ok p) ∧
        (a.addAggregate f operand).2.phase.onlyAggregates = a.phase.onlyAggregates ∨
      ∃ error, a.addAggregate f operand = (.error error, a) := by
  unfold addAggregate
  cases a.phase with
  | bare groupBy => exact Or.inl ⟨⟨_, rfl⟩, rfl⟩
  | resolved groupBy aggregates =>
    refine Or.inl ⟨⟨_, rfl⟩, ?_⟩
    rw [AggregatePhase.onlyAggregates, AggregatePhase.onlyAggregates, List.all_append]
    exact Bool.and_true _
  | split info => exact Or.inr ⟨_, rfl⟩

/-- Setting the table succeeds and leaves the fields, or fails and changes nothing. -/
theorem setTable_cases (a : Aggregation) (s : SourceId) :
    (a.setTable s).1 = .ok () ∧ (a.setTable s).2.phase = a.phase ∨ ∃ error, a.setTable s = (.error error, a) := by
  unfold setTable
  cases a.requireTableStatus with
  | ok => exact Or.inl ⟨rfl, rfl⟩
  | error error => exact Or.inr ⟨error, rfl⟩

/-- An operation succeeds, and if there were only aggregates behind the grouping expressions then there still are exactly if it
is careful; or it is refused and changes nothing; or it is a split that meets something else there. -/
theorem Edit.run_cases (a : Aggregation) (edit : Edit σ) :
    (edit.run a).1 = .ok () ∧
        (a.phase.onlyAggregates = true → ((edit.apply a).phase.onlyAggregates = true ↔ edit.Careful a)) ∨
      (edit.Careful a ∧ ∃ error, edit.run a = (.error error, a)) ∨
      edit = .splitOffProject ∧ a.phase.onlyAggregates = false := by
  cases edit with
  | addGroupBy e =>
    rcases a.addGroupBy_cases e with ⟨⟨p, hok⟩, hkeeps⟩ | ⟨error, heq⟩
    · exact Or.inl ⟨by rw [run, hok]; rfl, fun h => ⟨fun _ => trivial, fun _ => hkeeps.trans h⟩⟩
    · exact Or.inr (Or.inl ⟨trivial, error, by rw [run, heq]; rfl⟩)
  | addAggregate f operand =>
    rcases a.addAggregate_cases f operand with ⟨⟨p, hok⟩, hkeeps⟩ | ⟨error, heq⟩
    · exact Or.inl ⟨by rw [run, hok]; rfl, fun h => ⟨fun _ => trivial, fun _ => hkeeps.trans h⟩⟩
    · exact Or.inr (Or.inl ⟨trivial, error, by rw [run, heq]; rfl⟩)
  | splitOffProject =>
    rcases a.splitOffProject_cases with ⟨-, fields, info, heq⟩ | ⟨⟨error, heq⟩, -⟩ | ⟨hother, -⟩
    · exact Or.inl ⟨by rw [run, heq]; rfl, fun _ => ⟨fun _ => trivial, fun _ => by rw [apply, run, heq]; rfl⟩⟩
    · exact Or.inr (Or.inl ⟨trivial, error, by rw [run, heq]; rfl⟩)
    · exact Or.inr (Or.inr ⟨rfl, hother⟩)
  | setMethod m => exact Or.inl ⟨rfl, fun h => ⟨fun _ => trivial, fun _ => h⟩⟩
  | setTable s =>
    rcases a.setTable_cases s with ⟨hok, hphase⟩ | ⟨error, heq⟩
    · exact Or.inl ⟨hok, fun h => ⟨fun _ => trivial, fun _ => (congrArg AggregatePhase.onlyAggregates hphase).trans h⟩⟩
    · exact Or.inr (Or.inl ⟨trivial, error, heq⟩)
  | rewrite f => exact Or.inl ⟨rfl, fun _ => Iff.rfl⟩
  | substitute s limit st input => exact Or.inl ⟨rfl, fun _ => Iff.rfl⟩

/-- An operation that fails changes nothing, if a split finds only aggregates. -/
theorem Edit.apply_of_fails {edit : Edit σ} (hfails : edit.Fails a)
    (h : edit = .splitOffProject → a.phase.onlyAggregates = true) : edit.apply a = a := by
  obtain ⟨error, hfails⟩ := hfails
  rcases edit.run_cases a with ⟨hok, -⟩ | ⟨-, error', heq⟩ | ⟨hsplit, hother⟩
  · rw [hok] at hfails
    cases hfails
  · rw [apply, heq]
  · exact absurd (hother.symm.trans (h hsplit)) Bool.false_ne_true

/-- In a single state, failures change nothing exactly if there are only aggregates behind the grouping expressions. -/
theorem atomic_iff : a.Atomic σ ↔ a.phase.onlyAggregates = true := by
  constructor
  · intro hatomic
    rcases a.splitOffProject_cases with ⟨h, -⟩ | ⟨-, info, hphase⟩ | ⟨-, groupBy, aggregates, hphase, heq⟩
    · exact h
    · rw [hphase]
      rfl
    · have hrun : (Edit.splitOffProject : Edit σ).run a =
          (.error (.internal (.fieldNotAggregate a.id)), { a with phase := .bare [] }) := by
        rw [Edit.run, heq]
        rfl
      have hkept := hatomic .splitOffProject ⟨_, congrArg Prod.fst hrun⟩
      rw [Edit.apply, hrun] at hkept
      have hbare : AggregatePhase.bare [] = a.phase := congrArg Aggregation.phase hkept
      rw [hphase] at hbare
      cases hbare
  · intro h edit hfails
    exact Edit.apply_of_fails hfails fun _ => h

/-- Where there were only aggregates there are only aggregates exactly if the operation is careful. -/
theorem Edit.onlyAggregates_apply (h : a.phase.onlyAggregates = true) (edit : Edit σ) :
    (edit.apply a).phase.onlyAggregates = true ↔ edit.Careful a := by
  rcases edit.run_cases a with ⟨-, hiff⟩ | ⟨hcareful, error, heq⟩ | ⟨-, hother⟩
  · exact hiff h
  · rw [Edit.apply, heq]
    exact ⟨fun _ => hcareful, fun _ => h⟩
  · exact absurd (hother.symm.trans h) Bool.false_ne_true

end Atomic

/-- An operation that fails changes nothing in any aggregation, if it is no split. In all states that operations lead a new
aggregation through, no failure changes anything, exactly if each rewriting of expressions leaves only aggregates behind the
grouping expressions. -/
theorem atomic_iff_careful {σ : Type} :
    (∀ (a : Aggregation) (edit : Edit σ), edit ≠ .splitOffProject → edit.Fails a → edit.apply a = a) ∧
      ∀ (id : Int) (groupBy : List Expr) (edits : List (Edit σ)),
        Throughout Edit.apply (Atomic σ) (ofGroupBy id groupBy) edits ↔
          Along Edit.apply Edit.Careful (ofGroupBy id groupBy) edits := by
  constructor
  · intro a edit hedit hfails
    exact Edit.apply_of_fails hfails fun h => absurd h hedit
  · intro id groupBy edits
    have hstart : (ofGroupBy id groupBy).Atomic σ := atomic_iff.2 rfl
    refine throughout_iff_along (I := fun _ => True) (V := fun _ _ => True) (fun _ _ _ _ => trivial) ?_
      (.of_forall (fun _ _ => trivial) _ _) trivial hstart
    intro a edit _ _ hatomic
    rw [atomic_iff]
    exact edit.onlyAggregates_apply (atomic_iff.1 hatomic)

namespace ReplacedSum

/-- Puts a four in the place of every aggregate. -/
def constant : Substitution Unit where
  replace e := pure (if e.isAggregate then .long 4 else e)

/-- The sum that is added is replaced. -/
def edits : List (Edit Unit) :=
  [.addAggregate (.ofName "sum" false none) (some (.long 7)), .substitute constant 0 () (.leaf 1 .nothing)]

/-- The aggregation before the split. -/
def replaced : Aggregation := edits.foldl Edit.apply (ofGroupBy 2 [.long 5])

end ReplacedSum

open ReplacedSum in
/-- A split that finds the sum replaced fails and takes the grouping expression and the field with it. -/
theorem not_atomic_of_replaced_sum :
    ¬Throughout Edit.apply (Atomic Unit) (ofGroupBy 2 [.long 5]) edits ∧
      replaced.phase = .resolved [.long 5] [.long 4] ∧
      replaced.splitOffProject = (.error (.internal (.fieldNotAggregate 2)), { replaced with phase := .bare [] }) := by
  refine ⟨?_, rfl, rfl⟩
  intro hatomic
  exact Bool.false_ne_true (atomic_iff.1 hatomic.last)

end Aggregation

end ClusterPlan
