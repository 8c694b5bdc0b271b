import ClusterPlan.Plan
import ClusterPlan.Proofs.Context.Entity

/-!
# Renamings of plans

A plan mentions plan nodes, conditions and entities. A renaming replaces what is mentioned and the texts of statements, and
nothing else. The mentions of a plan are listed in the order in which a copy of it meets them; those of the renamed plan are
the renamed ones (`Plan.mentions_rename`).
-/

namespace ClusterPlan

/-- What stands in the place of each thing that a plan mentions. -/
structure Renaming where
  planNode : Int → Int
  condition : ConditionId → ConditionId
  entity : (kind : EntityKind) → Ref kind → Ref kind
  /-- What is left of the text of a statement. -/
  statement : Option String → Option String

namespace Renaming

/-- Different things stay different. The texts of statements do not matter. -/
structure Injective (ρ : Renaming) : Prop where
  planNode : Function.Injective ρ.planNode
  condition : Function.Injective ρ.condition
  entity : ∀ kind, Function.Injective (ρ.entity kind)

end Renaming

/-- A place in a plan that names something outside of the place. -/
inductive Mention where
  /-- The id of a node of the plan. -/
  | planNode (id : Int)
  /-- A column that refers to a plan node, inside the plan or outside. -/
  | column (id : Int)
  | condition (c : ConditionId)
  | entity (ref : AnyRef)

def Mention.rename (ρ : Renaming) : Mention → Mention
  | planNode id => planNode (ρ.planNode id)
  | column id => column (ρ.planNode id)
  | condition c => condition (ρ.condition c)
  | entity ⟨kind, r⟩ => entity ⟨kind, ρ.entity kind r⟩

/-- The id that a mention gives to a plan node. -/
def Mention.planNode? : Mention → Option Int
  | planNode id => some id
  | _ => none

/-- The mention of an entity. -/
abbrev Mention.of {kind : EntityKind} (r : Ref kind) : Mention := entity ⟨kind, r⟩

/-! ## What nodes hold besides their inputs and operands -/

section Heads

variable (ρ : Renaming)

def ColumnSource.rename : ColumnSource → ColumnSource
  | table s => table (ρ.entity _ s)
  | node id => node (ρ.planNode id)

def ColumnSource.mentions : ColumnSource → List Mention
  | table s => [.of s]
  | node id => [.column id]

def LeafOp.rename : LeafOp → LeafOp
  | tableSource s => tableSource (ρ.entity _ s)
  | groupScan g => groupScan (ρ.entity _ g)
  | nothing => nothing

def LeafOp.mentions : LeafOp → List Mention
  | tableSource s => [.of s]
  | groupScan g => [.of g]
  | nothing => []

def UnaryOp.rename : UnaryOp → UnaryOp
  | statement sql => statement (ρ.statement sql)
  | modify kind target => modify kind (ρ.entity _ target)
  | flatten nodes tables kinds => flatten (nodes.map (ρ.entity _)) (tables.map (Option.map (ρ.entity _))) kinds
  | ancestorLookup descendant ancestors tables =>
    ancestorLookup (ρ.entity _ descendant) (ancestors.map (ρ.entity _)) (tables.map (ρ.entity _))
  | branchLookup x ancestor branch tables =>
    branchLookup (ρ.entity _ x) (ρ.entity _ ancestor) (ρ.entity _ branch) (tables.map (ρ.entity _))
  | op => op

def UnaryOp.mentions : UnaryOp → List Mention
  | modify _ target => [.of target]
  | flatten nodes tables _ => nodes.map .of ++ tables.flatMap fun t => t.toList.map .of
  | ancestorLookup descendant ancestors tables => .of descendant :: (ancestors.map .of ++ tables.map .of)
  | branchLookup x ancestor branch tables => .of x :: .of ancestor :: .of branch :: tables.map .of
  | _ => []

def BinaryOp.rename : BinaryOp → BinaryOp
  | join op => join { op with groupJoin := op.groupJoin.map (ρ.entity _), keyJoin := op.keyJoin.map (ρ.entity _) }
  | usingHashTable table => usingHashTable (ρ.entity _ table)
  | usingBloomFilter filter => usingBloomFilter (ρ.entity _ filter)
  | bloomFilterFilter filter => bloomFilterFilter (ρ.entity _ filter)
  | op => op

/-- What the inputs of a node share. -/
def BinaryOp.sharedMentions : BinaryOp → List Mention
  | usingHashTable table => [.of table]
  | usingBloomFilter filter | bloomFilterFilter filter => [.of filter]
  | _ => []

/-- The joins of the context that a join stands for. -/
def BinaryOp.joinMentions : BinaryOp → List Mention
  | join op => op.groupJoin.toList.map .of ++ op.keyJoin.toList.map .of
  | _ => []

def JoinTreeNode.rename (n : JoinTreeNode) : JoinTreeNode := { n with table := ρ.entity _ n.table }

def ScanHead.rename (h : ScanHead) : ScanHead :=
  { h with
    id := ρ.planNode h.id
    rootMost := ρ.entity _ h.rootMost
    leafMost := ρ.entity _ h.leafMost
    tables := h.tables.map (ρ.entity _)
    conditions := h.conditions.map ρ.condition }

def ScanHead.mentions (h : ScanHead) : List Mention :=
  .planNode h.id :: .of h.rootMost :: .of h.leafMost :: (h.tables.map .of ++ h.conditions.map .condition)

end Heads

/-! ## Plans -/

section Rename

variable (ρ : Renaming)

mutual

def Expr.rename : Expr → Expr
  | .constant value type => .constant value type
  | .parameter position type => .parameter position type
  | .column c => .column { c with source := c.source.rename ρ }
  | .cast operand type => .cast operand.rename type
  | .call f operands => .call f (Expr.renameAll operands)
  | .aggregate f none => .aggregate f none
  | .aggregate f (some operand) => .aggregate f (some operand.rename)
  | .comparison c left right => .comparison { c with id := ρ.condition c.id } left.rename right.rename
  | .logical op operands => .logical op (Expr.renameAll operands)
  | .inList operand list => .inList operand.rename (Expr.renameAll list)
  | .subquery kind plan type => .subquery kind plan.rename type
  | .special f operands => .special f (Expr.renameAll operands)

def Expr.renameAll : List Expr → List Expr
  | [] => []
  | e :: es => e.rename :: Expr.renameAll es

def Expr.renameRows : List (List Expr) → List (List Expr)
  | [] => []
  | row :: rows => Expr.renameAll row :: Expr.renameRows rows

def Expr.renameBound : Option (Bound Expr) → Option (Bound Expr)
  | none => none
  | some ⟨e, inclusive⟩ => some ⟨e.rename, inclusive⟩

def Expr.renamePhase : AggregatePhase Expr → AggregatePhase Expr
  | .bare groupBy => .bare (Expr.renameAll groupBy)
  | .resolved groupBy aggregates => .resolved (Expr.renameAll groupBy) (Expr.renameAll aggregates)
  | .split info => .split info

def Scan.rename : Scan → Scan
  | .single head ⟨index, withUnions, ascending, ordering, equality, unions, low, high⟩ =>
    .single (head.rename ρ) {
      index, includeUnion := withUnions, ascending
      ordering := Expr.renameAll ordering
      equality := Expr.renameAll equality
      unions := Expr.renameRows unions
      low := Expr.renameBound low
      high := Expr.renameBound high }
  | .intersect head n output selector => .intersect (head.rename ρ) n output.rename selector.rename

def Plan.rename : Plan → Plan
  | .leaf id op => .leaf (ρ.planNode id) (op.rename ρ)
  | .probe id (.groupLoop inside outside insideParent) operands =>
    .probe (ρ.planNode id) (.groupLoop (ρ.entity _ inside) (ρ.entity _ outside) insideParent) (Expr.renameAll operands)
  | .probe id (.hashLookup table tables) operands =>
    .probe (ρ.planNode id) (.hashLookup (ρ.entity _ table) (tables.map (ρ.entity _))) (Expr.renameAll operands)
  | .values id rows => .values (ρ.planNode id) (Expr.renameRows rows)
  | .unary id op input operands => .unary (ρ.planNode id) (op.rename ρ) input.rename (Expr.renameAll operands)
  | .binary id op left right operands =>
    .binary (ρ.planNode id) (op.rename ρ) left.rename right.rename (Expr.renameAll operands)
  | .aggregate id op phase input =>
    .aggregate (ρ.planNode id) { op with table := op.table.map (ρ.entity _) } (Expr.renamePhase phase) input.rename
  | .tableJoins id g input scans => .tableJoins (ρ.planNode id) (ρ.entity _ g) input.rename (Plan.renameAll scans)
  | .joinTree id g nodes conditions none =>
    .joinTree (ρ.planNode id) (ρ.entity _ g) (nodes.map (·.rename ρ)) (Expr.renameRows conditions) none
  | .joinTree id g nodes conditions (some scan) =>
    .joinTree (ρ.planNode id) (ρ.entity _ g) (nodes.map (·.rename ρ)) (Expr.renameRows conditions) (some scan.rename)
  | .indexScan s => .indexScan s.rename

def Plan.renameAll : List Plan → List Plan
  | [] => []
  | p :: ps => p.rename :: Plan.renameAll ps

end

end Rename

mutual

def Expr.mentions : Expr → List Mention
  | .constant _ _ | .parameter _ _ | .aggregate _ none => []
  | .column c => c.source.mentions
  | .cast operand _ => operand.mentions
  | .call _ operands | .logical _ operands | .special _ operands => Expr.mentionsAll operands
  | .aggregate _ (some operand) => operand.mentions
  | .comparison c left right => .condition c.id :: (left.mentions ++ right.mentions)
  | .inList operand list => operand.mentions ++ Expr.mentionsAll list
  | .subquery _ plan _ => plan.mentions

def Expr.mentionsAll : List Expr → List Mention
  | [] => []
  | e :: es => e.mentions ++ Expr.mentionsAll es

def Expr.mentionsRows : List (List Expr) → List Mention
  | [] => []
  | row :: rows => Expr.mentionsAll row ++ Expr.mentionsRows rows

def Expr.mentionsBound : Option (Bound Expr) → List Mention
  | none => []
  | some ⟨e, _⟩ => e.mentions

def Expr.mentionsPhase : AggregatePhase Expr → List Mention
  | .bare groupBy => Expr.mentionsAll groupBy
  | .resolved groupBy aggregates => Expr.mentionsAll groupBy ++ Expr.mentionsAll aggregates
  | .split _ => []

/-- In a join tree the table of a node comes before its conditions. -/
def Expr.mentionsJoinTree : List JoinTreeNode → List (List Expr) → List Mention
  | nodes, [] => nodes.map fun n => .of n.table
  | [], row :: rows => Expr.mentionsAll row ++ Expr.mentionsJoinTree [] rows
  | n :: nodes, row :: rows => .of n.table :: (Expr.mentionsAll row ++ Expr.mentionsJoinTree nodes rows)

def Scan.mentions : Scan → List Mention
  | .single head ⟨_, _, _, ordering, equality, unions, low, high⟩ =>
    Expr.mentionsAll ordering ++ (Expr.mentionsAll equality ++ (Expr.mentionsRows unions ++
      (Expr.mentionsBound low ++ (Expr.mentionsBound high ++ head.mentions))))
  | .intersect head _ output selector => output.mentions ++ (selector.mentions ++ head.mentions)

def Plan.mentions : Plan → List Mention
  | .leaf id op => .planNode id :: op.mentions
  | .probe id (.groupLoop inside outside _) operands =>
    .planNode id :: .of inside :: .of outside :: Expr.mentionsAll operands
  | .probe id (.hashLookup table tables) operands =>
    .planNode id :: .of table :: (Expr.mentionsAll operands ++ tables.map .of)
  | .values id rows => .planNode id :: Expr.mentionsRows rows
  | .unary id op input operands => .planNode id :: (input.mentions ++ (op.mentions ++ Expr.mentionsAll operands))
  | .binary id (.bloomFilterFilter filter) left right operands =>
    .planNode id :: (left.mentions ++ .of filter :: (Expr.mentionsAll operands ++ right.mentions))
  | .binary id op left right operands =>
    .planNode id :: (op.sharedMentions ++
      (left.mentions ++ (right.mentions ++ (Expr.mentionsAll operands ++ op.joinMentions))))
  | .aggregate id op phase input =>
    Expr.mentionsPhase phase ++ .planNode id :: (input.mentions ++ op.table.toList.map .of)
  | .tableJoins id g input scans => .planNode id :: (input.mentions ++ .of g :: Plan.mentionsAll scans)
  | .joinTree id g nodes conditions none => Expr.mentionsJoinTree nodes conditions ++ [.planNode id, .of g]
  | .joinTree id g nodes conditions (some scan) =>
    Expr.mentionsJoinTree nodes conditions ++ .planNode id :: .of g :: scan.mentions
  | .indexScan s => s.mentions

def Plan.mentionsAll : List Plan → List Mention
  | [] => []
  | p :: ps => p.mentions ++ Plan.mentionsAll ps

end

/-- The ids of the nodes of a plan, with those in its subqueries, its candidate scans and the branches of its index scans. -/
def Plan.nodeIds (p : Plan) : List Int := p.mentions.filterMap Mention.planNode?

/-! ## Renamed lists and ids -/

theorem Expr.renameAll_eq (ρ : Renaming) (es : List Expr) : Expr.renameAll ρ es = es.map (·.rename ρ) := by
  induction es with
  | nil => rfl
  | cons e es ih => rw [Expr.renameAll, ih, List.map_cons]

theorem Expr.renameRows_eq (ρ : Renaming) (rows : List (List Expr)) :
    Expr.renameRows ρ rows = rows.map (·.map (·.rename ρ)) := by
  induction rows with
  | nil => rfl
  | cons row rows ih => rw [Expr.renameRows, ih, Expr.renameAll_eq, List.map_cons]

theorem Plan.renameAll_eq (ρ : Renaming) (ps : List Plan) : Plan.renameAll ρ ps = ps.map (·.rename ρ) := by
  induction ps with
  | nil => rfl
  | cons p ps ih => rw [Plan.renameAll, ih, List.map_cons]

/-- The id of a renamed plan is the renamed one. -/
theorem Plan.id_rename (ρ : Renaming) (p : Plan) : (p.rename ρ).id = ρ.planNode p.id := by
  cases p with
  | leaf | values | unary | binary | aggregate | tableJoins => rw [Plan.rename]; rfl
  | probe id op operands => cases op <;> (rw [Plan.rename]; rfl)
  | joinTree id g nodes conditions scan => cases scan <;> (rw [Plan.rename]; rfl)
  | indexScan s =>
    rw [Plan.rename]
    cases s <;> (rw [Scan.rename]; rfl)

/-! ## The mentions of a renamed plan -/

section Mentions

variable (ρ : Renaming)

@[simp] theorem Mention.rename_of {kind : EntityKind} (r : Ref kind) : (Mention.of r).rename ρ = .of (ρ.entity kind r) := rfl

/-- The mentions of some entities of one kind. -/
theorem Mention.map_of_map {kind : EntityKind} (rs : List (Ref kind)) :
    (rs.map (ρ.entity kind)).map Mention.of = (rs.map Mention.of).map (Mention.rename ρ) := by
  simp only [List.map_map]
  rfl

/-- Renaming what there may be renames its mention. -/
theorem Mention.map_of_toList {kind : EntityKind} (r : Option (Ref kind)) :
    (r.map (ρ.entity kind)).toList.map Mention.of = (r.toList.map Mention.of).map (Mention.rename ρ) := by
  cases r <;> rfl

/-- The renamed source of a column mentions what the source mentions, renamed. -/
theorem ColumnSource.mentions_rename (c : ColumnSource) : (c.rename ρ).mentions = c.mentions.map (Mention.rename ρ) := by
  cases c <;> rfl

/-- What a renamed leaf reads is what the leaf reads, renamed. -/
theorem LeafOp.mentions_rename (op : LeafOp) : (op.rename ρ).mentions = op.mentions.map (Mention.rename ρ) := by
  cases op <;> rfl

/-- A renamed operation with one input mentions what the operation mentions, renamed. -/
theorem UnaryOp.mentions_rename (op : UnaryOp) : (op.rename ρ).mentions = op.mentions.map (Mention.rename ρ) := by
  cases op with
  | flatten nodes tables _ =>
    simp only [UnaryOp.rename, UnaryOp.mentions, Mention.map_of_map, List.map_append, List.map_flatMap, List.flatMap_map,
      Mention.map_of_toList]
  | _ => simp only [UnaryOp.rename, UnaryOp.mentions, Mention.map_of_map, List.map_append, List.map_cons, List.map_nil,
      Mention.rename_of]

theorem JoinTreeNode.table_rename (n : JoinTreeNode) : (n.rename ρ).table = ρ.entity _ n.table := rfl

/-- The renamed head of a scan mentions what the head mentions, renamed. -/
theorem ScanHead.mentions_rename (h : ScanHead) : (h.rename ρ).mentions = h.mentions.map (Mention.rename ρ) := by
  simp only [ScanHead.rename, ScanHead.mentions, List.map_cons, List.map_append, List.map_map]
  rfl

mutual

/-- A renamed expression mentions what the expression mentions, renamed and in the same order. -/
theorem Expr.mentions_rename : ∀ e : Expr, (e.rename ρ).mentions = e.mentions.map (Mention.rename ρ)
  | .constant _ _ | .parameter _ _ | .aggregate _ none => rfl
  | .column c => c.source.mentions_rename ρ
  | .cast e _ => by simp only [Expr.rename, Expr.mentions, e.mentions_rename]
  | .call _ es | .logical _ es | .special _ es => by
    simp only [Expr.rename, Expr.mentions, Expr.mentionsAll_rename es]
  | .aggregate _ (some e) => by simp only [Expr.rename, Expr.mentions, e.mentions_rename]
  | .comparison _ l r => by
    simp only [Expr.rename, Expr.mentions, l.mentions_rename, r.mentions_rename, List.map_cons, List.map_append,
      Mention.rename]
  | .inList e es => by
    simp only [Expr.rename, Expr.mentions, e.mentions_rename, Expr.mentionsAll_rename es, List.map_append]
  | .subquery _ p _ => by simp only [Expr.rename, Expr.mentions, p.mentions_rename]

theorem Expr.mentionsAll_rename :
    ∀ es : List Expr, Expr.mentionsAll (Expr.renameAll ρ es) = (Expr.mentionsAll es).map (Mention.rename ρ)
  | [] => rfl
  | e :: es => by
    simp only [Expr.renameAll, Expr.mentionsAll, e.mentions_rename, Expr.mentionsAll_rename es, List.map_append]

theorem Expr.mentionsRows_rename :
    ∀ rows : List (List Expr), Expr.mentionsRows (Expr.renameRows ρ rows) = (Expr.mentionsRows rows).map (Mention.rename ρ)
  | [] => rfl
  | row :: rows => by
    simp only [Expr.renameRows, Expr.mentionsRows, Expr.mentionsAll_rename row, Expr.mentionsRows_rename rows,
      List.map_append]

theorem Expr.mentionsBound_rename : ∀ bound : Option (Bound Expr),
    Expr.mentionsBound (Expr.renameBound ρ bound) = (Expr.mentionsBound bound).map (Mention.rename ρ)
  | none => rfl
  | some ⟨e, _⟩ => by simp only [Expr.renameBound, Expr.mentionsBound, e.mentions_rename]

theorem Expr.mentionsPhase_rename : ∀ phase : AggregatePhase Expr,
    Expr.mentionsPhase (Expr.renamePhase ρ phase) = (Expr.mentionsPhase phase).map (Mention.rename ρ)
  | .bare groupBy => by simp only [Expr.renamePhase, Expr.mentionsPhase, Expr.mentionsAll_rename groupBy]
  | .resolved groupBy aggregates => by
    simp only [Expr.renamePhase, Expr.mentionsPhase, Expr.mentionsAll_rename groupBy, Expr.mentionsAll_rename aggregates,
      List.map_append]
  | .split _ => rfl

theorem Expr.mentionsJoinTree_rename : ∀ (nodes : List JoinTreeNode) (conditions : List (List Expr)),
    Expr.mentionsJoinTree (nodes.map (·.rename ρ)) (Expr.renameRows ρ conditions) =
      (Expr.mentionsJoinTree nodes conditions).map (Mention.rename ρ)
  | nodes, [] => by
    simp only [Expr.renameRows, Expr.mentionsJoinTree, List.map_map]
    rfl
  | [], row :: conditions => by
    have hrows := Expr.mentionsJoinTree_rename [] conditions
    rw [List.map_nil] at hrows
    simp only [List.map_nil, Expr.renameRows, Expr.mentionsJoinTree, Expr.mentionsAll_rename row, hrows, List.map_append]
  | n :: nodes, row :: conditions => by
    simp only [List.map_cons, Expr.renameRows, Expr.mentionsJoinTree, Expr.mentionsAll_rename row,
      Expr.mentionsJoinTree_rename nodes conditions, List.map_append, Mention.rename_of, JoinTreeNode.table_rename]

theorem Scan.mentions_rename : ∀ s : Scan, (s.rename ρ).mentions = s.mentions.map (Mention.rename ρ)
  | .single head ⟨_, _, _, ordering, equality, unions, low, high⟩ => by
    simp only [Scan.rename, Scan.mentions, head.mentions_rename, Expr.mentionsAll_rename ordering,
      Expr.mentionsAll_rename equality, Expr.mentionsRows_rename unions, Expr.mentionsBound_rename low,
      Expr.mentionsBound_rename high, List.map_append]
  | .intersect head _ output selector => by
    simp only [Scan.rename, Scan.mentions, head.mentions_rename, output.mentions_rename, selector.mentions_rename,
      List.map_append]

/-- A renamed plan mentions, place by place, what the plan mentions renamed. -/
theorem Plan.mentions_rename : ∀ p : Plan, (p.rename ρ).mentions = p.mentions.map (Mention.rename ρ)
  | .leaf _ op => by simp only [Plan.rename, Plan.mentions, op.mentions_rename, List.map_cons, Mention.rename]
  | .probe _ (.groupLoop _ _ _) operands => by
    simp only [Plan.rename, Plan.mentions, Expr.mentionsAll_rename operands, List.map_cons, Mention.rename]
  | .probe _ (.hashLookup _ tables) operands => by
    simp only [Plan.rename, Plan.mentions, Expr.mentionsAll_rename operands, Mention.map_of_map ρ tables, List.map_cons,
      List.map_append, Mention.rename]
  | .values _ rows => by simp only [Plan.rename, Plan.mentions, Expr.mentionsRows_rename rows, List.map_cons, Mention.rename]
  | .unary _ op input operands => by
    simp only [Plan.rename, Plan.mentions, op.mentions_rename, input.mentions_rename, Expr.mentionsAll_rename operands,
      List.map_cons, List.map_append, Mention.rename]
  | .binary _ op left right operands => by
    cases op with
    | bloomFilterFilter filter =>
      simp only [Plan.rename, BinaryOp.rename, Plan.mentions, left.mentions_rename, right.mentions_rename,
        Expr.mentionsAll_rename operands, List.map_cons, List.map_append, Mention.rename]
    | _ =>
      simp only [Plan.rename, BinaryOp.rename, Plan.mentions, BinaryOp.sharedMentions, BinaryOp.joinMentions,
        left.mentions_rename, right.mentions_rename, Expr.mentionsAll_rename operands, Mention.map_of_toList, List.map_cons,
        List.map_nil, List.map_append, Mention.rename]
  | .aggregate _ op phase input => by
    simp only [Plan.rename, Plan.mentions, Expr.mentionsPhase_rename phase, input.mentions_rename,
      Mention.map_of_toList ρ op.table, List.map_cons, List.map_append, Mention.rename]
  | .tableJoins _ _ input scans => by
    simp only [Plan.rename, Plan.mentions, input.mentions_rename, Plan.mentionsAll_rename scans, List.map_cons,
      List.map_append, Mention.rename]
  | .joinTree _ _ nodes conditions none => by
    simp only [Plan.rename, Plan.mentions, Expr.mentionsJoinTree_rename nodes conditions, List.map_cons, List.map_nil,
      List.map_append, Mention.rename]
  | .joinTree _ _ nodes conditions (some scan) => by
    simp only [Plan.rename, Plan.mentions, Expr.mentionsJoinTree_rename nodes conditions, scan.mentions_rename, List.map_cons,
      List.map_append, Mention.rename]
  | .indexScan s => by simp only [Plan.rename, Plan.mentions, s.mentions_rename]

theorem Plan.mentionsAll_rename :
    ∀ ps : List Plan, Plan.mentionsAll (Plan.renameAll ρ ps) = (Plan.mentionsAll ps).map (Mention.rename ρ)
  | [] => rfl
  | p :: ps => by
    simp only [Plan.renameAll, Plan.mentionsAll, p.mentions_rename, Plan.mentionsAll_rename ps, List.map_append]

end

end Mentions

end ClusterPlan
