import ClusterPlan.Proofs.Plan.Renaming
import ClusterPlan.Proofs.Plan.Subjects
import Mathlib.Data.List.Perm.Basic

/-!
# What a node owns

A plan node owns its inputs and operands and, besides them, the candidate scans of the joins of a group, the columns that order
an index scan and the branches of an intersection (`Subject.parts`). The ids of the nodes of a plan or an expression are its own
one and those of its parts (`Subject.nodeIds_perm`).
-/

namespace ClusterPlan

/-! ## Mentions that are no nodes -/

section Heads

@[simp]
theorem Mention.planNode?_planNode (id : Int) : (planNode id).planNode? = some id := rfl

@[simp]
theorem Mention.planNode?_of {kind : EntityKind} (r : Ref kind) : (of r).planNode? = none := rfl

@[simp]
theorem Mention.planNode?_condition (c : ConditionId) : (condition c).planNode? = none := rfl

/-- Mentions of entities give no ids to plan nodes. -/
@[simp]
theorem filterMap_planNode?_of {kind : EntityKind} (rs : List (Ref kind)) :
    rs.filterMap (Mention.planNode? ∘ Mention.of) = [] :=
  List.filterMap_eq_nil_iff.2 fun _ _ => rfl

/-- Mentions of conditions give no ids to plan nodes. -/
@[simp]
theorem filterMap_planNode?_condition (cs : List ConditionId) :
    cs.filterMap (Mention.planNode? ∘ Mention.condition) = [] :=
  List.filterMap_eq_nil_iff.2 fun _ _ => rfl

/-- The source of a column gives no id to a plan node: it refers to one at most. -/
@[simp]
theorem ColumnSource.filterMap_mentions (c : ColumnSource) : c.mentions.filterMap Mention.planNode? = [] := by
  cases c <;> rfl

/-- What a leaf reads gives no ids to plan nodes. -/
@[simp]
theorem LeafOp.filterMap_mentions (op : LeafOp) : op.mentions.filterMap Mention.planNode? = [] := by
  cases op <;> rfl

/-- An operation with one input gives no ids to plan nodes. -/
@[simp]
theorem UnaryOp.filterMap_mentions (op : UnaryOp) : op.mentions.filterMap Mention.planNode? = [] := by
  cases op with
  | flatten nodes tables kinds => simp [UnaryOp.mentions, List.filterMap_flatMap]
  | _ => simp [UnaryOp.mentions, List.filterMap_cons]

/-- What the inputs of an operation share gives no ids to plan nodes. -/
@[simp]
theorem BinaryOp.filterMap_sharedMentions (op : BinaryOp) : op.sharedMentions.filterMap Mention.planNode? = [] := by
  cases op <;> rfl

/-- The joins of an operation give no ids to plan nodes. -/
@[simp]
theorem BinaryOp.filterMap_joinMentions (op : BinaryOp) : op.joinMentions.filterMap Mention.planNode? = [] := by
  cases op <;> simp [BinaryOp.joinMentions]

/-- The head of a scan gives one id, that of the scan. -/
@[simp]
theorem ScanHead.filterMap_mentions (h : ScanHead) : h.mentions.filterMap Mention.planNode? = [h.id] := by
  simp [ScanHead.mentions, List.filterMap_cons]

end Heads

/-! ## Parts -/

/-- What an index scan owns: the columns that order it and its comparands, or the two branches of an intersection. -/
def Scan.parts : Scan → List Subject
  | single _ s => (s.ordering ++ s.comparands).map .expr
  | intersect _ _ output selector => [.plan (.indexScan output), .plan (.indexScan selector)]

namespace Subject

/-- What a node or an expression owns right below it. -/
def parts : Subject → List Subject
  | plan (.indexScan s) => s.parts
  | plan (.tableJoins _ _ input scans) => plan input :: scans.map plan
  | x => x.below

/-- The id of a node; expressions have none. -/
def ownId : Subject → List Int
  | plan p => [p.id]
  | expr _ => []

/-- The ids of the nodes of a plan or an expression, with those of candidate scans and branches. -/
def nodeIds : Subject → List Int
  | plan p => p.nodeIds
  | expr e => e.mentions.filterMap Mention.planNode?

/-- What a plan or an expression mentions, in the order in which a copy of it meets it. -/
def mentions : Subject → List Mention
  | plan p => p.mentions
  | expr e => e.mentions

/-- The ids that a subject mentions as those of nodes are the ids of its nodes. -/
theorem filterMap_mentions (x : Subject) : x.mentions.filterMap Mention.planNode? = x.nodeIds := by
  cases x <;> rfl

/-- The ids of the nodes of some subjects. -/
def idsOf (xs : List Subject) : List Int := xs.flatMap nodeIds

@[simp]
theorem idsOf_nil : idsOf [] = [] := rfl

@[simp]
theorem idsOf_cons (x : Subject) (xs : List Subject) : idsOf (x :: xs) = x.nodeIds ++ idsOf xs := rfl

/-- The ids of two lists of subjects come one after the other. -/
@[simp]
theorem idsOf_append (xs ys : List Subject) : idsOf (xs ++ ys) = idsOf xs ++ idsOf ys := List.flatMap_append

/-- In another order subjects have the same ids in another order. -/
theorem idsOf_perm {xs ys : List Subject} (h : xs.Perm ys) : (idsOf xs).Perm (idsOf ys) := h.flatMap_right _

theorem nodeIds_all (es : List Expr) :
    (Expr.mentionsAll es).filterMap Mention.planNode? = idsOf (es.map expr) := by
  induction es with
  | nil => rfl
  | cons e es ih => rw [Expr.mentionsAll, List.filterMap_append, ih, List.map_cons, idsOf_cons, nodeIds]

theorem nodeIds_rows (rows : List (List Expr)) :
    (Expr.mentionsRows rows).filterMap Mention.planNode? = idsOf (rows.flatten.map expr) := by
  induction rows with
  | nil => rfl
  | cons row rows ih =>
    rw [Expr.mentionsRows, List.filterMap_append, ih, nodeIds_all, List.flatten_cons, List.map_append, idsOf_append]

theorem nodeIds_bound (b : Option (Bound Expr)) :
    (Expr.mentionsBound b).filterMap Mention.planNode? = idsOf ((b.map (·.comparand)).toList.map expr) := by
  cases b with
  | none => rfl
  | some b => exact (List.append_nil _).symm

theorem nodeIds_phase (phase : AggregatePhase Expr) :
    (Expr.mentionsPhase phase).filterMap Mention.planNode? = idsOf (phase.operands.map expr) := by
  cases phase with
  | bare groupBy => exact nodeIds_all groupBy
  | resolved groupBy aggregates =>
    rw [Expr.mentionsPhase, List.filterMap_append, nodeIds_all, nodeIds_all, AggregatePhase.operands, List.map_append,
      idsOf_append]
  | split info => rfl

/-- The ids in a join tree are those of its conditions. -/
theorem nodeIds_joinTree (nodes : List JoinTreeNode) (rows : List (List Expr)) :
    (Expr.mentionsJoinTree nodes rows).filterMap Mention.planNode? = idsOf (rows.flatten.map expr) := by
  induction rows generalizing nodes with
  | nil =>
    have htables : (Expr.mentionsJoinTree nodes []) = (nodes.map fun n => n.table).map Mention.of := by
      cases nodes <;> simp [Expr.mentionsJoinTree]
    rw [htables, List.filterMap_map, filterMap_planNode?_of]
    rfl
  | cons row rows ih =>
    cases nodes <;>
      simp [Expr.mentionsJoinTree, List.filterMap_cons, nodeIds_all, ih]

theorem nodeIds_plans (ps : List Plan) :
    (Plan.mentionsAll ps).filterMap Mention.planNode? = idsOf (ps.map plan) := by
  induction ps with
  | nil => rfl
  | cons p ps ih =>
    rw [Plan.mentionsAll, List.filterMap_append, ih, List.map_cons, idsOf_cons, nodeIds, Plan.nodeIds]

/-- The ids of a scan are its own and those of its parts, in some order. -/
theorem nodeIds_scan (s : Scan) : (plan (.indexScan s)).nodeIds.Perm (s.id :: idsOf s.parts) := by
  rw [List.perm_iff_count]
  intro a
  cases s with
  | single head s =>
    obtain ⟨_, _, _, ordering, equality, unions, low, high⟩ := s
    simp [nodeIds, Plan.nodeIds, Plan.mentions, Scan.mentions, Scan.parts, SingleScan.comparands, nodeIds_all, nodeIds_rows,
      nodeIds_bound, List.count_append, List.count_cons, Scan.id, Scan.head]
    omega
  | intersect head n output selector =>
    simp [nodeIds, Plan.nodeIds, Plan.mentions, Scan.mentions, Scan.parts, List.count_append, List.count_cons, Scan.id,
      Scan.head]
    omega

/-- The ids in an expression are those of what lies below it. -/
theorem nodeIds_operands (e : Expr) : (expr e).nodeIds = idsOf (expr e).below := by
  cases e with
  | constant | parameter => rfl
  | column c => exact c.source.filterMap_mentions
  | cast | subquery => exact (List.append_nil _).symm
  | call | logical | special => exact nodeIds_all _
  | comparison c left right =>
    simp [nodeIds, Expr.mentions, List.filterMap_cons, below, Expr.children]
  | inList operand list => simp [nodeIds, Expr.mentions, nodeIds_all, below, Expr.children]
  | aggregate f operand =>
    cases operand with
    | none => rfl
    | some operand => exact (List.append_nil _).symm

/-- The nodes of a plan or an expression are its own one and those of its parts. -/
theorem nodeIds_perm (x : Subject) : x.nodeIds.Perm (x.ownId ++ idsOf x.parts) := by
  rcases x with p | e
  · rw [List.perm_iff_count]
    intro a
    cases p with
    | leaf id op => simp [nodeIds, Plan.nodeIds, Plan.mentions, ownId, parts, below, Plan.id, Plan.children, Plan.exprs]
    | probe id op operands =>
      cases op <;> simp [nodeIds, Plan.nodeIds, Plan.mentions, ownId, parts, below, Plan.id, Plan.children, Plan.exprs,
        List.filterMap_cons, nodeIds_all]
    | values id rows =>
      simp [nodeIds, Plan.nodeIds, Plan.mentions, ownId, parts, below, Plan.id, Plan.children, Plan.exprs, nodeIds_rows]
    | unary id op input operands =>
      simp [nodeIds, Plan.nodeIds, Plan.mentions, ownId, parts, below, Plan.id, Plan.children, Plan.exprs, nodeIds_all]
    | binary id op left right operands =>
      cases op <;> simp [nodeIds, Plan.nodeIds, Plan.mentions, ownId, parts, below, Plan.id, Plan.children, Plan.exprs,
        nodeIds_all, List.filterMap_cons, List.count_append, List.count_cons]
      all_goals omega
    | aggregate id op phase input =>
      simp [nodeIds, Plan.nodeIds, Plan.mentions, ownId, parts, below, Plan.id, Plan.children, Plan.exprs, nodeIds_phase,
        List.count_append, List.count_cons]
      omega
    | tableJoins id group input scans =>
      simp [nodeIds, Plan.nodeIds, Plan.mentions, ownId, parts, Plan.id, nodeIds_plans, List.filterMap_cons]
    | joinTree id group nodes conditions scan =>
      cases scan <;> simp [nodeIds, Plan.nodeIds, Plan.mentions, ownId, parts, below, Plan.id, Plan.children, Plan.exprs,
        nodeIds_joinTree, List.filterMap_cons, List.count_append, List.count_cons]
      omega
    | indexScan s => exact (nodeIds_scan s).count_eq a
  · rw [nodeIds_operands]
    rfl

end Subject

end ClusterPlan
