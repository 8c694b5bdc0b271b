import ClusterPlan.Ref
import ClusterPlan.Text.Uppercase
import ClusterPlan.Value

/-!
# What an expression node holds besides its operands
-/

namespace ClusterPlan

/-- Where the values of a column come from: a use of a table, or the plan node that computes them. -/
inductive ColumnSource where
  | table (source : SourceId)
  | node (id : Int)
deriving DecidableEq

structure ColumnRef where
  source : ColumnSource
  position : Nat
  name : String
  type : Option TypeInstance
deriving DecidableEq

structure FunctionHead where
  name : String
  overload : Option Overload
  type : Option TypeInstance
deriving DecidableEq

/-- Chooses among the functions of one name; the call gets the type of the chosen one. -/
def FunctionHead.withOverload (f : FunctionHead) (o : Overload) : FunctionHead :=
  { f with overload := some o, type := some o.result }

structure AggregateHead where
  function : String
  distinct : Bool
  option : Option String
  overload : Option Overload
  type : Option TypeInstance
deriving DecidableEq

/-- A call of an aggregate function. Its name is kept in capital letters. -/
def AggregateHead.ofName (name : String) (distinct : Bool) (type : Option TypeInstance) : AggregateHead :=
  ⟨Text.upperCase name, distinct, none, none, type⟩

inductive Comparison where
  | eq
  | ne
  | lt
  | le
  | gt
  | ge
deriving DecidableEq

namespace Comparison

def all : List Comparison := [eq, ne, lt, le, gt, ge]

def symbol : Comparison → String
  | eq => "=="
  | ne => "!="
  | lt => "<"
  | le => "<="
  | gt => ">"
  | ge => ">="

/-- The comparison that holds of the operands in the opposite order. -/
def reversed : Comparison → Comparison
  | eq => eq
  | ne => ne
  | lt => gt
  | le => ge
  | gt => lt
  | ge => le

/-- Exchanging the sides of a comparison twice gives it back. -/
theorem reversed_reversed (c : Comparison) : c.reversed.reversed = c := by
  cases c <;> rfl

end Comparison

/-- How a comparison is carried out. -/
inductive Implementation where
  | normal
  /-- The equality that a group join implements. -/
  | groupJoin
  /-- The equality of a rejected group join; it still holds of the rows. -/
  | potentialGroupJoin
deriving DecidableEq

structure ComparisonHead where
  id : ConditionId
  op : Comparison
  implementation : Implementation
deriving DecidableEq

inductive LogicalOp where
  | and
  | or
  | not
  | isNull
deriving DecidableEq

def LogicalOp.name : LogicalOp → String
  | and => "and"
  | or => "or"
  | not => "not"
  | isNull => "isNull"

inductive SubqueryKind where
  | value
  | exist
  | any
deriving DecidableEq

def SubqueryKind.name : SubqueryKind → String
  | value => "VALUE"
  | exist => "EXISTS"
  | any => "ANY"

/-- Predicates that only an index of their own can answer. -/
inductive SpecialFunction where
  | fullTextMatch
  | geoContains
  | geoOverlaps
deriving DecidableEq

def SpecialFunction.name : SpecialFunction → String
  | fullTextMatch => "FULL_TEXT_MATCH"
  | geoContains => "GEO_CONTAINS"
  | geoOverlaps => "GEO_OVERLAPS"

end ClusterPlan
