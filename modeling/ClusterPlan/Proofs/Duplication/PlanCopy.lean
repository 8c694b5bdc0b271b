import ClusterPlan.Duplication.Plan
import ClusterPlan.Proofs.Duplication.SessionRenaming

/-!
# A copy of a plan is a renamed plan

Each clause of the copy renames what it meets (`Plan.renames_copy`). In a fresh session nothing was met before, so the copy of
a plan that has each node once is the plan under one injective renaming to new numbers and new entities (`copiesTo_of_nodup`);
a column of a node that is inside the plan refers in the copy to the copy of that node, wherever the two stand.
-/

namespace ClusterPlan

open Duplication

variable {ctx : Context} {supply : Supply}

/-! ## The parts that are copied where they stand -/

def Expr.copyBound : Option (Bound Expr) → Copying (Option (Bound Expr))
  | none => pure none
  | some ⟨e, inclusive⟩ => return some ⟨← e.copy, inclusive⟩

def Expr.copyPhase : AggregatePhase Expr → Copying (AggregatePhase Expr)
  | .bare groupBy => return .bare (← Expr.copyAll groupBy)
  | .resolved groupBy aggregates => do
    let groupBy ← Expr.copyAll groupBy
    let aggregates ← Expr.copyAll aggregates
    pure (.resolved groupBy aggregates)
  | .split info => pure (.split info)

/-- The copy of a scan of one index: its head, then the expressions by which rows are ordered and selected. -/
theorem Scan.copy_single (head : ScanHead) (index : Catalog.Index) (withUnions : Bool) (ascending : List Bool)
    (ordering equality : List Expr) (unions : List (List Expr)) (low high : Option (Bound Expr)) :
    (Scan.single head ⟨index, withUnions, ascending, ordering, equality, unions, low, high⟩).copy = (do
      let ordering ← Expr.copyAll ordering
      let equality ← Expr.copyAll equality
      let unions ← Expr.copyRows unions
      let low ← Expr.copyBound low
      let high ← Expr.copyBound high
      let head ← head.copy
      pure (.single head ⟨index, withUnions, ascending, ordering, equality, unions, low, high⟩)) := by
  rw [Scan.copy]
  cases low <;> cases high <;> rfl

/-- The copy of an aggregation: its phase comes before its id and its input. -/
theorem Plan.copy_aggregate (id : Int) (op : AggregateOp) (phase : AggregatePhase Expr) (input : Plan) :
    (Plan.aggregate id op phase input).copy = (do
      let phase ← Expr.copyPhase phase
      let id ← copyNumber id
      let input ← input.copy
      let table ← op.table.mapM source
      pure (.aggregate id { op with table } phase input)) := by
  cases phase <;> rw [Plan.copy] <;> rfl

/-- Conditions that are left over without nodes are mentioned in their order. -/
theorem Expr.mentionsJoinTree_nil (rows : List (List Expr)) : Expr.mentionsJoinTree [] rows = Expr.mentionsRows rows := by
  induction rows with
  | nil => rfl
  | cons row rows ih => rw [Expr.mentionsJoinTree, Expr.mentionsRows, ih]

/-! ## What nodes hold besides their inputs and operands -/

/-- Copying the source of a column renames it. -/
theorem ColumnSource.renames_copy (c : ColumnSource) : Renames ctx supply c.mentions c.copy fun ρ => c.rename ρ := by
  cases c with
  | table s => exact ((Renames.entity s).bind fun _ => Renames.pure _).congr rfl fun _ _ => rfl
  | node id => exact ((Renames.nodeNumber id).bind fun _ => Renames.pure _).congr rfl fun _ _ => rfl

/-- Copying what a leaf reads renames it. -/
theorem LeafOp.renames_copy (op : LeafOp) : Renames ctx supply op.mentions op.copy fun ρ => op.rename ρ := by
  cases op with
  | tableSource s => exact ((Renames.entity s).bind fun _ => Renames.pure _).congr rfl fun _ _ => rfl
  | groupScan g => exact ((Renames.entity g).bind fun _ => Renames.pure _).congr rfl fun _ _ => rfl
  | nothing => exact Renames.pure _

/-- Copying an operation with one input renames it. -/
theorem UnaryOp.renames_copy (op : UnaryOp) : Renames ctx supply op.mentions op.copy fun ρ => op.rename ρ := by
  cases op with
  | statement sql =>
    refine (Renames.pure (UnaryOp.statement none)).congr rfl fun ρ hρ => ?_
    rw [UnaryOp.rename, hρ]
  | modify kind target => exact ((Renames.entity target).bind fun _ => Renames.pure _).congr rfl fun _ _ => rfl
  | flatten nodes tables kinds =>
    refine ((Renames.entities nodes).bind fun _ =>
      (Renames.mapM (Renames.entity_option) tables).bind fun _ => Renames.pure _).congr ?_ fun _ _ => rfl
    rw [UnaryOp.mentions, List.append_nil]
  | ancestorLookup descendant ancestors tables =>
    refine ((Renames.entity descendant).bind fun _ => (Renames.entities ancestors).bind fun _ =>
      (Renames.entities tables).bind fun _ => Renames.pure _).congr ?_ fun _ _ => rfl
    simp [UnaryOp.mentions]
  | branchLookup x ancestor branch tables =>
    refine ((Renames.entity x).bind fun _ => (Renames.entity ancestor).bind fun _ =>
      (Renames.entity branch).bind fun _ =>
      (Renames.entities tables).bind fun _ => Renames.pure _).congr ?_ fun _ _ => rfl
    simp [UnaryOp.mentions]
  | _ => exact Renames.pure _

/-- Copying the head of a scan renames it. -/
theorem ScanHead.renames_copy (h : ScanHead) : Renames ctx supply h.mentions h.copy fun ρ => h.rename ρ := by
  refine ((Renames.copyNumber h.id).bind fun _ => (Renames.entity h.rootMost).bind fun _ =>
    (Renames.entity h.leafMost).bind fun _ => (Renames.entities h.tables).bind fun _ =>
    (Renames.conditions h.conditions).bind fun _ => Renames.pure _).congr ?_ fun _ _ => rfl
  simp [ScanHead.mentions]

/-! ## Expressions, scans and plans -/

/-- The nodes of a join tree that have no conditions. -/
theorem Expr.renames_copyJoinTree_nil (nodes : List JoinTreeNode) :
    Renames ctx supply (nodes.map fun n => .of n.table) (Expr.copyJoinTree nodes []) fun ρ => (nodes.map (·.rename ρ), []) := by
  induction nodes with
  | nil =>
    rw [Expr.copyJoinTree, Expr.copyRows, pure_bind]
    exact Renames.pure _
  | cons n nodes ih =>
    rw [Expr.copyJoinTree]
    refine ((Renames.entity n.table).bind fun _ => ih.bind fun _ => Renames.pure _).congr ?_ fun _ _ => rfl
    simp

mutual

/-- Copying an expression renames it. -/
theorem Expr.renames_copy : ∀ e : Expr, Renames ctx supply e.mentions e.copy fun ρ => e.rename ρ
  | .constant _ _ | .parameter _ _ | .aggregate _ none => by
    rw [Expr.copy]
    exact Renames.pure _
  | .column c => by
    rw [Expr.copy]
    refine ((c.source.renames_copy).bind fun _ => Renames.pure _).congr ?_ fun _ _ => rfl
    rw [Expr.mentions, List.append_nil]
  | .cast e _ => by
    rw [Expr.copy]
    refine (e.renames_copy.bind fun _ => Renames.pure _).congr ?_ fun _ _ => rfl
    rw [Expr.mentions, List.append_nil]
  | .call _ es | .logical _ es | .special _ es => by
    rw [Expr.copy]
    refine ((Expr.renames_copyAll es).bind fun _ => Renames.pure _).congr ?_ fun _ _ => rfl
    rw [Expr.mentions, List.append_nil]
  | .aggregate _ (some e) => by
    rw [Expr.copy]
    refine (e.renames_copy.bind fun _ => Renames.pure _).congr ?_ fun _ _ => rfl
    rw [Expr.mentions, List.append_nil]
  | .comparison c l r => by
    rw [Expr.copy]
    refine ((Renames.condition c.id).bind fun _ => l.renames_copy.bind fun _ => r.renames_copy.bind fun _ =>
      Renames.pure _).congr ?_ fun _ _ => rfl
    rw [Expr.mentions, List.append_nil, List.singleton_append]
  | .inList e es => by
    rw [Expr.copy]
    refine (e.renames_copy.bind fun _ => (Expr.renames_copyAll es).bind fun _ => Renames.pure _).congr ?_ fun _ _ => rfl
    rw [Expr.mentions, List.append_nil]
  | .subquery _ p _ => by
    rw [Expr.copy]
    refine (p.renames_copy.bind fun _ => Renames.pure _).congr ?_ fun _ _ => rfl
    rw [Expr.mentions, List.append_nil]

theorem Expr.renames_copyAll :
    ∀ es : List Expr, Renames ctx supply (Expr.mentionsAll es) (Expr.copyAll es) fun ρ => Expr.renameAll ρ es
  | [] => by
    rw [Expr.copyAll]
    exact Renames.pure _
  | e :: es => by
    rw [Expr.copyAll]
    refine (e.renames_copy.bind fun _ => (Expr.renames_copyAll es).bind fun _ => Renames.pure _).congr ?_ fun _ _ => rfl
    rw [Expr.mentionsAll, List.append_nil]

theorem Expr.renames_copyRows :
    ∀ rows : List (List Expr), Renames ctx supply (Expr.mentionsRows rows) (Expr.copyRows rows) fun ρ => Expr.renameRows ρ rows
  | [] => by
    rw [Expr.copyRows]
    exact Renames.pure _
  | row :: rows => by
    rw [Expr.copyRows]
    refine ((Expr.renames_copyAll row).bind fun _ => (Expr.renames_copyRows rows).bind fun _ =>
      Renames.pure _).congr ?_ fun _ _ => rfl
    rw [Expr.mentionsRows, List.append_nil]

theorem Expr.renames_copyJoinTree : ∀ (nodes : List JoinTreeNode) (conditions : List (List Expr)),
    Renames ctx supply (Expr.mentionsJoinTree nodes conditions) (Expr.copyJoinTree nodes conditions) fun ρ =>
      (nodes.map (·.rename ρ), Expr.renameRows ρ conditions)
  | nodes, [] => Expr.renames_copyJoinTree_nil nodes
  | [], row :: rows => by
    rw [Expr.copyJoinTree, Expr.copyRows, bind_assoc]
    simp only [bind_assoc, pure_bind]
    refine ((Expr.renames_copyAll row).bind fun _ => (Expr.renames_copyRows rows).bind fun _ =>
      Renames.pure _).congr ?_ fun _ _ => rfl
    rw [Expr.mentionsJoinTree, Expr.mentionsJoinTree_nil, List.append_nil]
  | n :: nodes, row :: rows => by
    rw [Expr.copyJoinTree]
    refine ((Renames.entity n.table).bind fun _ => (Expr.renames_copyAll row).bind fun _ =>
      (Expr.renames_copyJoinTree nodes rows).bind fun _ => Renames.pure _).congr ?_ fun _ _ => rfl
    simp [Expr.mentionsJoinTree]

theorem Expr.renames_copyBound : ∀ bound : Option (Bound Expr),
    Renames ctx supply (Expr.mentionsBound bound) (Expr.copyBound bound) fun ρ => Expr.renameBound ρ bound
  | none => Renames.pure _
  | some ⟨e, _⟩ => by
    rw [Expr.copyBound]
    refine (e.renames_copy.bind fun _ => Renames.pure _).congr ?_ fun _ _ => rfl
    rw [Expr.mentionsBound, List.append_nil]

theorem Expr.renames_copyPhase : ∀ phase : AggregatePhase Expr,
    Renames ctx supply (Expr.mentionsPhase phase) (Expr.copyPhase phase) fun ρ => Expr.renamePhase ρ phase
  | .bare groupBy => by
    rw [Expr.copyPhase]
    refine ((Expr.renames_copyAll groupBy).bind fun _ => Renames.pure _).congr ?_ fun _ _ => rfl
    rw [Expr.mentionsPhase, List.append_nil]
  | .resolved groupBy aggregates => by
    rw [Expr.copyPhase]
    refine ((Expr.renames_copyAll groupBy).bind fun _ => (Expr.renames_copyAll aggregates).bind fun _ =>
      Renames.pure _).congr ?_ fun _ _ => rfl
    rw [Expr.mentionsPhase, List.append_nil]
  | .split _ => Renames.pure _

theorem Scan.renames_copy : ∀ s : Scan, Renames ctx supply s.mentions s.copy fun ρ => s.rename ρ
  | .single head ⟨_, _, _, ordering, equality, unions, low, high⟩ => by
    rw [Scan.copy_single]
    refine ((Expr.renames_copyAll ordering).bind fun _ => (Expr.renames_copyAll equality).bind fun _ =>
      (Expr.renames_copyRows unions).bind fun _ => (Expr.renames_copyBound low).bind fun _ =>
      (Expr.renames_copyBound high).bind fun _ => (head.renames_copy).bind fun _ =>
      Renames.pure _).congr ?_ fun _ _ => rfl
    rw [Scan.mentions, List.append_nil]
  | .intersect head _ output selector => by
    rw [Scan.copy]
    refine (output.renames_copy.bind fun _ => selector.renames_copy.bind fun _ => (head.renames_copy).bind fun _ =>
      Renames.pure _).congr ?_ fun _ _ => rfl
    rw [Scan.mentions, List.append_nil]

/-- A copy of a plan is the plan renamed, if the plan has each node once. -/
theorem Plan.renames_copy : ∀ p : Plan, Renames ctx supply p.mentions p.copy fun ρ => p.rename ρ
  | .leaf id op => by
    rw [Plan.copy]
    refine ((Renames.copyNumber id).bind fun _ => (op.renames_copy).bind fun _ =>
      Renames.pure _).congr ?_ fun _ _ => rfl
    simp [Plan.mentions]
  | .probe id (.groupLoop inside outside _) operands => by
    rw [Plan.copy]
    refine ((Renames.copyNumber id).bind fun _ => (Renames.entity inside).bind fun _ =>
      (Renames.entity outside).bind fun _ => (Expr.renames_copyAll operands).bind fun _ =>
      Renames.pure _).congr ?_ fun _ _ => rfl
    simp [Plan.mentions]
  | .probe id (.hashLookup table tables) operands => by
    rw [Plan.copy]
    refine ((Renames.copyNumber id).bind fun _ => (Renames.entity table).bind fun _ =>
      (Expr.renames_copyAll operands).bind fun _ => (Renames.entities tables).bind fun _ =>
      Renames.pure _).congr ?_ fun _ _ => rfl
    simp [Plan.mentions]
  | .values id rows => by
    rw [Plan.copy]
    refine ((Renames.copyNumber id).bind fun _ => (Expr.renames_copyRows rows).bind fun _ =>
      Renames.pure _).congr ?_ fun _ _ => rfl
    simp [Plan.mentions]
  | .unary id op input operands => by
    rw [Plan.copy]
    refine ((Renames.copyNumber id).bind fun _ => input.renames_copy.bind fun _ => (op.renames_copy).bind fun _ =>
      (Expr.renames_copyAll operands).bind fun _ => Renames.pure _).congr ?_ fun _ _ => rfl
    simp [Plan.mentions]
  | .binary id op left right operands => by
    have hid : Renames ctx supply [.planNode id] (copyNumber id) fun ρ => ρ.planNode id := Renames.copyNumber id
    have hleft := left.renames_copy
    have hright := right.renames_copy
    have hoperands := Expr.renames_copyAll operands
    -- The operator says when its own parts are copied: what the left input fills before the inputs, the filter that its rows
    -- have to pass between them, and the joins of a join behind them.
    cases op with
    | bloomFilterFilter filter =>
      rw [Plan.copy]
      refine (hid.bind fun _ => hleft.bind fun _ => (Renames.entity filter).bind fun _ => hoperands.bind fun _ =>
        hright.bind fun _ => Renames.pure _).congr ?_ fun _ _ => rfl
      simp [Plan.mentions]
    | join op =>
      simp only [Plan.copy, BinaryOp.copyShared, BinaryOp.copyJoins, pure_bind, bind_assoc]
      refine (hid.bind fun _ => hleft.bind fun _ => hright.bind fun _ => hoperands.bind fun _ =>
        (Renames.entity_option op.groupJoin).bind fun _ => (Renames.entity_option op.keyJoin).bind fun _ =>
        Renames.pure _).congr ?_ fun _ _ => rfl
      simp [Plan.mentions, BinaryOp.sharedMentions, BinaryOp.joinMentions]
    | usingHashTable table =>
      simp only [Plan.copy, BinaryOp.copyShared, BinaryOp.copyJoins, pure_bind, bind_assoc]
      refine (hid.bind fun _ => (Renames.entity table).bind fun _ => hleft.bind fun _ => hright.bind fun _ =>
        hoperands.bind fun _ => Renames.pure _).congr ?_ fun _ _ => rfl
      simp [Plan.mentions, BinaryOp.sharedMentions, BinaryOp.joinMentions]
    | usingBloomFilter filter =>
      simp only [Plan.copy, BinaryOp.copyShared, BinaryOp.copyJoins, pure_bind, bind_assoc]
      refine (hid.bind fun _ => (Renames.entity filter).bind fun _ => hleft.bind fun _ => hright.bind fun _ =>
        hoperands.bind fun _ => Renames.pure _).congr ?_ fun _ _ => rfl
      simp [Plan.mentions, BinaryOp.sharedMentions, BinaryOp.joinMentions]
    | mapJoin _ | union _ =>
      simp only [Plan.copy, BinaryOp.copyShared, BinaryOp.copyJoins, pure_bind]
      refine (hid.bind fun _ => hleft.bind fun _ => hright.bind fun _ => hoperands.bind fun _ =>
        Renames.pure _).congr ?_ fun _ _ => rfl
      simp [Plan.mentions, BinaryOp.sharedMentions, BinaryOp.joinMentions]
  | .aggregate id op phase input => by
    rw [Plan.copy_aggregate]
    refine ((Expr.renames_copyPhase phase).bind fun _ => (Renames.copyNumber id).bind fun _ =>
      input.renames_copy.bind fun _ => (Renames.entity_option op.table).bind fun _ =>
      Renames.pure _).congr ?_ fun _ _ => rfl
    simp [Plan.mentions]
  | .tableJoins id g input scans => by
    rw [Plan.copy]
    refine ((Renames.copyNumber id).bind fun _ => input.renames_copy.bind fun _ => (Renames.entity g).bind fun _ =>
      (Plan.renames_copyAll scans).bind fun _ => Renames.pure _).congr ?_ fun _ _ => rfl
    simp [Plan.mentions]
  | .joinTree id g nodes conditions none => by
    rw [Plan.copy]
    refine ((Expr.renames_copyJoinTree nodes conditions).bind fun _ => (Renames.copyNumber id).bind fun _ =>
      (Renames.entity g).bind fun _ => Renames.pure _).congr ?_ fun _ _ => rfl
    simp [Plan.mentions]
  | .joinTree id g nodes conditions (some scan) => by
    rw [Plan.copy]
    refine ((Expr.renames_copyJoinTree nodes conditions).bind fun _ => (Renames.copyNumber id).bind fun _ =>
      (Renames.entity g).bind fun _ => (scan.renames_copy.bind fun _ => Renames.pure _).bind fun _ =>
      Renames.pure _).congr ?_ fun _ _ => rfl
    simp [Plan.mentions]
  | .indexScan s => by
    rw [Plan.copy]
    refine (s.renames_copy.bind fun _ => Renames.pure _).congr ?_ fun _ _ => rfl
    rw [Plan.mentions, List.append_nil]

theorem Plan.renames_copyAll :
    ∀ ps : List Plan, Renames ctx supply (Plan.mentionsAll ps) (Plan.copyAll ps) fun ρ => Plan.renameAll ρ ps
  | [] => by
    rw [Plan.copyAll]
    exact Renames.pure _
  | p :: ps => by
    rw [Plan.copyAll]
    refine (p.renames_copy.bind fun _ => (Plan.renames_copyAll ps).bind fun _ => Renames.pure _).congr ?_ fun _ _ => rfl
    rw [Plan.mentionsAll, List.append_nil]

end

/-! ## Copies in a fresh session -/

/-- A plan was copied, and nothing of the copy is old. -/
structure Plan.CopiesTo (ctx : Context) (supply : Supply) (p : Plan) (ρ : Renaming) (copy : Plan) (s : Duplication) : Prop where
  /-- The state is one of a session, whose copies of entities are faithful. -/
  session : Session ctx supply s
  entities : ∀ ⦃kind : EntityKind⦄ (r : Ref kind), .entity ⟨kind, r⟩ ∈ p.mentions → s.Copies r (ρ.entity kind r)
  injective : ρ.Injective
  statement : ∀ sql, ρ.statement sql = none
  /-- The copy is the plan renamed. -/
  renamed : copy = p.rename ρ
  /-- What the copy mentions was made in the session. -/
  made : ∀ m ∈ copy.mentions, Made { ctx, supply } s m
  /-- A column refers to the copy of a node exactly if the original refers to the original. -/
  columns : ∀ (i j : Nat) (id node : Int), p.mentions[i]? = some (.column id) → p.mentions[j]? = some (.planNode node) →
    ∃ id' node', copy.mentions[i]? = some (.column id') ∧ copy.mentions[j]? = some (.planNode node') ∧ (id' = node' ↔ id = node)

/-- In a fresh session no number is claimed. -/
theorem unclaimed_start (ctx : Context) (supply : Supply) (id : Int) : ({ ctx, supply } : Duplication).Unclaimed id := by
  intro new hmem
  cases hmem

/-- A copy of a plan with different nodes is the plan under an injective renaming to what is new. -/
theorem copiesTo_of_nodup (hctx : Reached ctx supply) {p : Plan} (hdistinct : p.nodeIds.Nodup)
    (hhas : ∀ ref, .entity ref ∈ p.mentions → ctx.Has ref.2) :
    ∃ ρ, p.CopiesTo ctx supply ρ (p.copy { ctx, supply }).1 (p.copy { ctx, supply }).2 := by
  have hcopy := p.renames_copy hctx.wellFormed hhas { ctx, supply } .start
  have h := hcopy.session.inSession hctx.wellFormed
  have hagrees := h.renamingOf_agrees
  have hrenamed := hcopy.answer hdistinct (fun id _ => unclaimed_start ctx supply id) _ hagrees
  refine ⟨renamingOf { ctx, supply } (p.copy { ctx, supply }).2, hcopy.session, ?_, h.renamingOf_injective, hagrees.statement,
    hrenamed, ?_, ?_⟩
  · intro kind r hr
    obtain ⟨entry, hentry, rfl⟩ := List.mem_map.1 (hcopy.knows _ hr)
    rw [hagrees.entity entry.1 entry.2 hentry]
    exact hentry
  · intro m hm
    rw [hrenamed, Plan.mentions_rename] at hm
    obtain ⟨m, hmem, rfl⟩ := List.mem_map.1 hm
    exact h.made_rename hagrees (hcopy.knows m hmem)
  · intro i j id node hi hj
    rw [hrenamed, Plan.mentions_rename, List.getElem?_map, List.getElem?_map, hi, hj]
    exact ⟨_, _, rfl, rfl, h.renamingOf_injective.planNode.eq_iff⟩

namespace CopiedPlan

/-- A context with one hash table. -/
def hashed : Context := ((Context.withConfig {}).addHashTable {}).2

/-- A column stands before the node that it refers to, and a node stands in a subquery. -/
def plan : Plan :=
  .binary 1 (.usingHashTable ⟨0⟩)
    (.unary 2 (.statement (some "SELECT k FROM t")) (.leaf 3 .nothing) [.column ⟨.node 4, 0, "k", none⟩])
    (.probe 4 (.hashLookup ⟨0⟩ []) [])
    [.subquery .exist (.leaf 5 .nothing) none]

def copied : Plan :=
  .binary 6 (.usingHashTable ⟨1⟩)
    (.unary 7 (.statement none) (.leaf 8 .nothing) [.column ⟨.node 9, 0, "k", none⟩])
    (.probe 9 (.hashLookup ⟨1⟩ []) [])
    [.subquery .exist (.leaf 10 .nothing) none]

/-- The ids of the plan were drawn. -/
theorem reached_hashed : Reached hashed ⟨6⟩ :=
  .addHashTable {} (.draw (.draw (.draw (.draw (.draw (.start {}))))))

/-- The entities that the plan mentions are there. -/
theorem has_of_mention : ∀ ref, .entity ref ∈ plan.mentions → hashed.Has ref.2 := by
  intro ref href
  simp only [plan, Plan.mentions, Expr.mentionsAll, Expr.mentions, BinaryOp.sharedMentions, BinaryOp.joinMentions,
    UnaryOp.mentions, LeafOp.mentions, ColumnSource.mentions, List.map_nil, List.append_nil, List.nil_append,
    List.cons_append, List.mem_cons, List.not_mem_nil, Mention.entity.injEq, reduceCtorEq, or_false, false_or] at href
  obtain rfl | rfl := href <;> decide

end CopiedPlan

open CopiedPlan in
/-- Numbers follow the ones that were drawn, and the column refers to the copy of its node. -/
theorem copiesTo_of_hash_lookup :
    plan.nodeIds.Nodup ∧ (∀ ref, .entity ref ∈ plan.mentions → hashed.Has ref.2) ∧
      (plan.copy { ctx := hashed, supply := ⟨6⟩ }).1 = copied ∧
      ∃ ρ, plan.CopiesTo hashed ⟨6⟩ ρ (plan.copy { ctx := hashed, supply := ⟨6⟩ }).1
        (plan.copy { ctx := hashed, supply := ⟨6⟩ }).2 := by
  refine ⟨by decide, has_of_mention, ?_, copiesTo_of_nodup reached_hashed (by decide) has_of_mention⟩
  simp only [plan, Plan.copy, Expr.copy, Expr.copyAll]
  rfl

end ClusterPlan
