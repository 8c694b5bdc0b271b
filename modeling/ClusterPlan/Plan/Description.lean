import ClusterPlan.Format.Serializer
import ClusterPlan.Plan.Summary
import ClusterPlan.Plan.Traversal

/-!
# Descriptions of plans

A description lists the nodes of a plan without its subqueries, each with its parent and its inputs, and finds them by id.
A serializer writes it as a text.
-/

namespace ClusterPlan

/-- A named text of a description. -/
structure Pair where
  key : String
  value : String
deriving DecidableEq

structure NodeDescription where
  name : String
  id : Int
  /-- The node that reads the rows. -/
  output : Option Int := none
  description : Option (List Pair) := none
  /-- The inputs. -/
  dependencies : Option (List Int) := none
deriving DecidableEq

/-- Descriptions of nodes, and the place of the last one of each id. -/
structure PlanDescription where
  nodes : List NodeDescription := []
  places : List (Int × Nat) := []
deriving DecidableEq

namespace PlanDescription

/-- Puts a place under an id, instead of the one that it had. -/
def insertPlace (id : Int) (place : Nat) : List (Int × Nat) → List (Int × Nat)
  | [] => [(id, place)]
  | entry :: entries => if entry.1 = id then (id, place) :: entries else entry :: insertPlace id place entries

/-- Adds a node. -/
def add (d : PlanDescription) (n : NodeDescription) : PlanDescription :=
  { nodes := d.nodes ++ [n], places := insertPlace n.id d.nodes.length d.places }

/-- The description of the node with an id. -/
def find? (d : PlanDescription) (id : Int) : Option NodeDescription := (d.places.lookup id).bind (d.nodes[·]?)

end PlanDescription

/-- The nodes that were described and the ids of those that are being walked, the innermost first. -/
structure DescriptionState where
  nodes : List NodeDescription := []
  stack : List Int := []

/-- The description of a node below the innermost one. -/
def DescriptionState.describe (ctx : Context) (p : Plan) (s : DescriptionState) : DescriptionState :=
  let details := p.details ctx
  let operands := p.exprs.length
  let pairs :=
    (if details = "" then [] else [Pair.mk "details" details]) ++
    (if operands = 0 then [] else [Pair.mk "expressions" (toString operands)])
  let children := p.children.map (·.id)
  let node : NodeDescription :=
    { name := p.name, id := p.id, output := s.stack.head?
      description := if pairs.isEmpty then none else some pairs
      dependencies := if children.isEmpty then none else some children }
  { s with nodes := s.nodes ++ [node] }

/-- Describes the nodes of a walk. -/
def DescriptionState.visitor (ctx : Context) : Visitor DescriptionState where
  enter p := do
    modify fun s => { s.describe ctx p with stack := p.id :: s.stack }
    pure true
  leave _ := do
    modify fun s => { s with stack := s.stack.tail }
    pure true
  visit p := do
    modify (describe ctx p)
    pure true

/-- The description of a plan. -/
def Plan.describe (ctx : Context) (p : Plan) : PlanDescription :=
  ((p.accept (DescriptionState.visitor ctx)).run {}).2.nodes.foldl PlanDescription.add {}

/-! ## Serialised descriptions -/

instance : Declared Pair where
  shape := .record [("key", Declared.shape String), ("value", Declared.shape String)]
  datum p := .record [("key", Declared.datum p.key), ("value", Declared.datum p.value)]
  ofDatum?
    | .record [(_, key), (_, value)] => do return ⟨← Declared.ofDatum? key, ← Declared.ofDatum? value⟩
    | _ => none

instance : Declared NodeDescription where
  shape := .record [
    ("name", Declared.shape String),
    ("id", Declared.shape Int),
    ("output", Declared.shape (Option Int)),
    ("description", Declared.shape (Option (List Pair))),
    ("dependencies", Declared.shape (Option (List Int)))]
  datum n := .record [
    ("name", Declared.datum n.name),
    ("id", Declared.datum n.id),
    ("output", Declared.datum n.output),
    ("description", Declared.datum n.description),
    ("dependencies", Declared.datum n.dependencies)]
  ofDatum?
    | .record [(_, name), (_, id), (_, output), (_, description), (_, dependencies)] => do
      return {
        name := ← Declared.ofDatum? name
        id := ← Declared.ofDatum? id
        output := ← Declared.ofDatum? output
        description := ← Declared.ofDatum? description
        dependencies := ← Declared.ofDatum? dependencies }
    | _ => none

namespace PlanDescription

instance : Declared PlanDescription where
  shape := .record [("plan_node_descs", Declared.shape (List NodeDescription)), ("node_index_map", .table)]
  datum d := .record [("plan_node_descs", Declared.datum d.nodes), ("node_index_map", .table (Datum.ascending d.places))]
  ofDatum?
    | .record [(_, nodes), (_, .table places)] => do return ⟨← Declared.ofDatum? nodes, places⟩
    | _ => none

/-- The JSON text of a description. A text that cannot be written is a defect of the planner. -/
def serialised (s : Serializer) (d : PlanDescription) : Except PlanError String :=
  (s.text d).mapError fun cause => .internal (.other ("计划描述序列化失败: " ++ cause))

end PlanDescription

end ClusterPlan
