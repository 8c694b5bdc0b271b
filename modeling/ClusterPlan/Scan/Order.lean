import ClusterPlan.Scan.Construction

/-!
# The order of a scan

The columns of a scan are the ones that equalities fix, in which all rows agree, and the free ones, by which the rows are
sorted. `Scan.effectiveness` says how far that meets a required order and whether the scan has to run backwards.
-/

namespace ClusterPlan

/-- What a query requires of the order of its rows. -/
inductive RequiredOrder where
  | orderBy (targets : List (Expr × Bool))
  | groupBy (targets : List Expr)
  | distinct (targets : List Expr)
  /-- The operand of a minimum or maximum of all rows. -/
  | minMax (operand : Expr)

namespace Scan

/-- The columns that equalities fix. -/
def fixedColumns (s : Scan) : List (Expr × Bool) := s.ordering.take s.equalityCount

/-- The columns that sort the rows. -/
def freeColumns (s : Scan) : List (Expr × Bool) := s.ordering.drop s.equalityCount

/-- Is an expression among some columns? -/
def hasColumn (columns : List (Expr × Bool)) (e : Expr) : Bool := columns.any fun c => c.1.same e

/-- Goes through the targets and lets each take the next free column if it is the same expression. For the columns that
were taken it says whether their directions differ from those of the targets. A target that a fixed column repeats makes no
difference; any other target has no order here. -/
def takeTargets (fixed : List (Expr × Bool)) : List (Expr × Bool) → List (Expr × Bool) → Option (List Bool)
  | _, [] => some []
  | [], (target, _) :: targets =>
    if hasColumn fixed target then takeTargets fixed [] targets else none
  | column :: free, (target, ascending) :: targets =>
    if column.1.same target then (takeTargets fixed free targets).map ((column.2 != ascending) :: ·)
    else if hasColumn fixed target then takeTargets fixed (column :: free) targets
    else none

/-- Which columns have to be read backwards, given the answer for the taken ones: the columns behind the last taken one go
with it, and the fixed ones go with the first free one. -/
def reversals (fixed free : Nat) (taken : List Bool) : List Bool :=
  let rest := List.replicate (free - taken.length) (taken.getLast?.getD false)
  let sorted := taken ++ rest
  List.replicate fixed (sorted.head?.getD false) ++ sorted

/-- Do the rows have the order of the targets? If so, the answer says whether they have to be read backwards. -/
def sortedBackwards? (s : Scan) (targets : List (Expr × Bool)) : Option Bool :=
  match takeTargets s.fixedColumns s.freeColumns targets with
  | none => none
  | some taken =>
    let flags := reversals s.fixedColumns.length s.freeColumns.length taken
    if !flags.any (·) then some false
    else if flags.all (·) then some true
    else none

/-- What a single target says about grouping: found, at a place too far behind, or absent. -/
def groupedTarget (s : Scan) (targets : Nat) (target : Expr) : Bool :=
  match s.freeColumns.findIdx? fun c => c.1.same target with
  | some position => decide (position < targets)
  | none => hasColumn s.fixedColumns target

/-- How far rows with equal targets stand together. -/
def grouping (s : Scan) (targets : List Expr) : OrderEffectiveness :=
  let found := targets.map (s.groupedTarget targets.length)
  if !found.any (·) then .none
  else if found.all (·) then .grouped
  else .partialGrouped

/-- How far the order of the scan meets a required order, and whether the scan has to run backwards for it. -/
def effectiveness (s : Scan) : RequiredOrder → OrderEffectiveness × Bool
  | .orderBy targets =>
    match s.sortedBackwards? targets with
    | some backwards => (.sorted, backwards)
    | none => (s.grouping (targets.map (·.1)), false)
  | .groupBy targets | .distinct targets => (s.grouping targets, false)
  | .minMax operand =>
    if (s.ordering[s.equalityCount]?).any (·.1.same operand) then (.forMinMax, false) else (.none, false)

/-- The scan with its order decided for a required order. -/
def withOrder (s : Scan) (required : RequiredOrder) : Scan :=
  let (order, reverse) := s.effectiveness required
  s.withHead fun h => { h with order, reverse }

end Scan

end ClusterPlan
