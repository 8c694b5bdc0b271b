import ClusterPlan.Scan.Construction

/-!
# Counting consumed conditions

Candidate scans count the conditions that they consume. What matters of a count is whether it is none, one or many; counts
kept apart are laid over each other without counting again. A scan is useful if it is the only one to consume some
condition, and an intersection if each of its scans is.
-/

namespace ClusterPlan

inductive HowMany where
  | none
  | one
  | many
deriving DecidableEq

namespace HowMany

def all : List HowMany := [none, one, many]

def ofCount : Nat → HowMany
  | 0 => none
  | 1 => one
  | _ => many

/-- The sum of two counts that are kept apart. -/
def overlay : HowMany → HowMany → HowMany
  | none, x => x
  | x, none => x
  | _, _ => many

/-- Laying summaries over each other gives the summary of the sum. -/
theorem overlay_ofCount (m n : Nat) : (ofCount m).overlay (ofCount n) = ofCount (m + n) := by
  match m, n with
  | 0, n => simp [ofCount, overlay]
  | 1, 0 => rfl
  | 1, 1 => rfl
  | 1, n + 2 => simp [ofCount, overlay, show 1 + (n + 2) = n + 1 + 2 by omega]
  | m + 2, 0 => rfl
  | m + 2, 1 => rfl
  | m + 2, n + 2 => simp [ofCount, overlay, show m + 2 + (n + 2) = m + n + 2 + 2 by omega]

end HowMany

/-- How often conditions have been counted. -/
structure Counts where
  entries : List (ConditionId × Nat) := []

namespace Counts

/-- Counts a condition once more. -/
def bump (c : ConditionId) : List (ConditionId × Nat) → List (ConditionId × Nat)
  | [] => [(c, 1)]
  | (d, n) :: entries => if c = d then (d, n + 1) :: entries else (d, n) :: bump c entries

def increment (x : Counts) (c : ConditionId) : Counts := ⟨bump c x.entries⟩

/-- The number of conditions that have been counted. -/
def size (x : Counts) : Nat := x.entries.length

def count (x : Counts) (c : ConditionId) : Nat := (x.entries.lookup c).getD 0

def howMany (x : Counts) (c : ConditionId) : HowMany := .ofCount (x.count c)

end Counts

/-- What tells how often conditions have been counted: a counter, or two such views laid over each other. -/
inductive CountView where
  | counter (counts : Counts)
  | overlay (first second : CountView)

namespace CountView

/-- How often a condition has been counted. An overlay only knows the answers of its two views. -/
def howMany : CountView → ConditionId → HowMany
  | counter counts, c => counts.howMany c
  | overlay first second, c => (first.howMany c).overlay (second.howMany c)

/-- The counters of a view from left to right. -/
def counters : CountView → List Counts
  | counter counts => [counts]
  | overlay first second => first.counters ++ second.counters

end CountView

namespace Scan

/-- Counts the conditions that a scan consumes; those of an intersection are the conditions of its two scans. -/
def countConditions (counts : Counts) : Scan → Counts
  | .single head _ => head.conditions.foldl Counts.increment counts
  | .intersect _ _ output selector => selector.countConditions (output.countConditions counts)

/-- Does each index of the scan consume a condition that no other scan consumes? -/
def isUseful (howMany : ConditionId → HowMany) : Scan → Bool
  | .single head _ => head.conditions.any fun c => howMany c == .one
  | .intersect _ _ output selector => output.isUseful howMany && selector.isUseful howMany

/-- The source of either scan, those of the first one before the others, that uses the deepest table above the leaf-most
tables of both. -/
def commonAncestor? (ctx : Context) (a b : Scan) : Option SourceId :=
  match (ctx.tableOf a.head.leafMost).commonAncestor? (ctx.tableOf b.head.leafMost) with
  | some table => (a.head.tables ++ b.head.tables).find? fun s => (ctx.tableOf s).same table
  | none => none

end Scan

end ClusterPlan
