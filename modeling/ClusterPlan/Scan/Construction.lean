import ClusterPlan.Expr.Basic
import ClusterPlan.Context.Basic
import ClusterPlan.Error

/-!
# Making index scans

A scan of one index starts without comparands; an intersection compares columns that both of its scans have behind the
columns that equalities fix. The comparands of an intersection cannot be set, those of its scans can.
-/

namespace ClusterPlan.Scan

/-- A scan of one index without comparands, over a source or two. -/
def ofIndex (ctx : Context) (id : Int) (index : Catalog.Index) (rootMost leafMost : SourceId)
    (ordering : List (Expr × Bool)) : Scan :=
  .single
    { id, rootMost, leafMost, tables := if leafMost = rootMost then [rootMost] else [rootMost, leafMost] }
    { index, includeUnion := ctx.config.includeUnion, ordering := ordering.map (·.1), ascending := ordering.map (·.2) }

/-- The order of the rows of an index, one column for each of its own. A column of a table that only the root-most source
uses is read there, any other at the leaf-most source. -/
def orderingOf (ctx : Context) (index : Catalog.Index) (rootMost leafMost : SourceId) : List (Expr × Bool) :=
  index.columns.map fun c =>
    let atRoot := !(ctx.tableOf leafMost).same c.table && (ctx.tableOf rootMost).same c.table
    let position := ((c.table.column? c.column).map (·.position)).getD 0
    (.column ⟨.table (if atRoot then rootMost else leafMost), position, c.column, none⟩, c.ascending)

/-- The columns with their directions in the order of the rows. -/
def ordering (s : Scan) : List (Expr × Bool) := s.output.ordering.zip s.output.ascending

/-- The direction of a column. Past the last column the direction is ascending. -/
def isAscendingAt (s : Scan) (i : Nat) : Bool := (s.ordering[i]?).all (·.2)

/-- The columns behind those that equalities fix. -/
def freeCount (s : Scan) : Nat := s.ordering.length - s.equalityCount

/-- The disjunctions that are expanded behind the equalities. -/
def unionCount (s : Scan) : Nat := s.output.unions.length

/-- Adds what is not yet there, in order. -/
def appendNew {α : Type} [DecidableEq α] (xs ys : List α) : List α :=
  ys.foldl (fun xs y => if y ∈ xs then xs else xs ++ [y]) xs

/-- The rows of one scan that another one selects by comparing some columns. The number of columns is at least one and at
most what both scans have; only then is an id drawn. -/
def intersect? (output selector : Scan) (columns : Nat) (supply : Supply) : Except PlanError (Scan × Supply) :=
  if columns = 0 ∨ output.freeCount < columns ∨ selector.freeCount < columns then
    .error (.internal (.comparedColumns columns output.freeCount selector.freeCount))
  else
    let (id, supply) := supply.draw
    let a := output.head
    let b := selector.head
    let head : ScanHead :=
      { id, rootMost := a.rootMost, leafMost := a.leafMost, covering := a.covering
        tables := appendNew a.tables b.tables, conditions := appendNew a.conditions b.conditions }
    .ok (.intersect head columns output selector, supply)

/-- Does a source lie between the two ends of the scan's hierarchy? -/
def spans (ctx : Context) (s : Scan) (table : SourceId) : Bool :=
  ctx.isAncestor s.head.leafMost table && ctx.isAncestor table s.head.rootMost

/-- Counts the disjunctions among the equalities or not, in every index of the scan. -/
def setIncludeUnion (include? : Bool) : Scan → Scan
  | .single head x => .single head { x with includeUnion := include? }
  | .intersect head n output selector =>
    .intersect head n (output.setIncludeUnion include?) (selector.setIncludeUnion include?)

/-- Changes the comparands of a scan of one index. -/
def edit (part : ScanPart) (f : SingleScan Expr → SingleScan Expr) : Scan → Except PlanError Scan
  | .single head x => .ok (.single head (f x))
  | .intersect head _ _ _ => .error (.internal (.intersectionPart head.id part))

def setEquality (s : Scan) (es : List Expr) : Except PlanError Scan := s.edit .equality fun x => { x with equality := es }

def addEquality (s : Scan) (e : Expr) : Except PlanError Scan :=
  s.edit .equality fun x => { x with equality := x.equality ++ [e] }

/-- Adds the alternatives of one expanded disjunction. -/
def addUnion (s : Scan) (es : List Expr) : Except PlanError Scan :=
  s.edit .union fun x => { x with unions := x.unions ++ [es] }

def setLow (s : Scan) (e : Expr) (inclusive : Bool) : Except PlanError Scan :=
  s.edit .low fun x => { x with low := some ⟨e, inclusive⟩ }

def setHigh (s : Scan) (e : Expr) (inclusive : Bool) : Except PlanError Scan :=
  s.edit .high fun x => { x with high := some ⟨e, inclusive⟩ }

def addTable (s : Scan) (t : SourceId) : Scan := s.withHead fun h => { h with tables := appendNew h.tables [t] }

def addCondition (s : Scan) (c : ConditionId) : Scan :=
  s.withHead fun h => { h with conditions := appendNew h.conditions [c] }

def setReverse (s : Scan) (reverse : Bool) : Scan := s.withHead fun h => { h with reverse }

def setCovering (s : Scan) (covering : Bool) : Scan := s.withHead fun h => { h with covering }

def setCost (s : Scan) (cost : Cost) : Scan := s.withHead fun h => { h with cost := some cost }

end ClusterPlan.Scan
