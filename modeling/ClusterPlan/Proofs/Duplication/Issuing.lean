import ClusterPlan.Proofs.Duplication.PlanCopy
import ClusterPlan.Proofs.Plan.Ownership

/-!
# The ids of copied nodes

A copied node has a number that was drawn for nothing else: the number that the session set aside when it copied a column that
refers to the node (`Duplication.reserved`), or one that is drawn for it. So the ids of a copy differ from each other, from all
ids that are in use, and from all that are still set aside, whichever plans were copied in the session before
(`Plan.issues_copy`).
-/

namespace ClusterPlan

/-! ## Ids in use -/

/-- Ids that are in use were drawn, each once. -/
def Supply.Issued (supply : Supply) (ids : List Int) : Prop := ids.Nodup ∧ ∀ id ∈ ids, id < supply.next

namespace Supply.Issued

variable {supply supply' : Supply} {ids ids' : List Int}

/-- Ids stay ids in use in any order. -/
theorem perm (h : supply.Issued ids) (hids : ids'.Perm ids) : supply.Issued ids' :=
  ⟨hids.nodup_iff.2 h.1, fun id hid => h.2 id (hids.mem_iff.1 hid)⟩

/-- Some of the ids in use are in use properly, too. -/
theorem sublist (h : supply.Issued ids) (hids : ids'.Sublist ids) : supply.Issued ids' :=
  ⟨h.1.sublist hids, fun id hid => h.2 id (hids.subset hid)⟩

/-- Drawing further numbers leaves ids in use. -/
theorem mono (h : supply.Issued ids) (hnext : supply.next ≤ supply'.next) : supply'.Issued ids :=
  ⟨h.1, fun id hid => Int.lt_of_lt_of_le (h.2 id hid) hnext⟩

/-- A number that is drawn is not in use. -/
theorem draw (h : supply.Issued ids) : supply.draw.2.Issued (supply.draw.1 :: ids) := by
  refine ⟨List.nodup_cons.2 ⟨fun hmem => Int.lt_irrefl _ (h.2 _ hmem), h.1⟩, List.forall_mem_cons.2 ⟨Int.lt_succ _, ?_⟩⟩
  intro id hid
  exact Int.lt_trans (h.2 id hid) (Int.lt_succ _)

end Supply.Issued

namespace Duplication

variable {α β : Type} {s s' : Duplication}

/-- The numbers that a session has set aside for plan nodes that have no copy yet. -/
def reserved (s : Duplication) : List Int := (s.planNodes.map Prod.snd).filter (· ∉ s.used)

/-- Where all numbers are kept, the same ones are set aside. -/
theorem KeepsNumbers.reserved_eq (h : s.KeepsNumbers s') : s'.reserved = s.reserved := by
  have hnumbering := h.1
  simp only [numbering, Prod.mk.injEq] at hnumbering
  rw [reserved, hnumbering.1, hnumbering.2, reserved]

/-! ## Actions that issue ids -/

/-- An action that is given ids in use answers with some of them and with new ones. Whatever else is in use, those ids are
different from it, from each other, and from what the session sets aside. -/
def Issues (given : List Int) (action : Copying α) (ids : α → List Int) : Prop :=
  ∀ (s : Duplication) (others : List Int), s.supply.Issued (others ++ given ++ s.reserved) →
    (action s).2.supply.Issued (others ++ ids (action s).1 ++ (action s).2.reserved)

variable {given : List Int} {ids : α → List Int} {ids' : β → List Int} {action : Copying α} {next : α → Copying β}

/-- An answer that is ready holds the ids that it was given. -/
protected theorem Issues.pure {x : α} (h : (ids x).Perm given) : Issues given (pure x) ids :=
  fun _ others hs => hs.perm ((h.append_left others).append_right _)

/-- Ids that an action gives out are given to the action after it. -/
protected theorem Issues.bind (h : Issues [] action ids) (h' : ∀ x, Issues (given ++ ids x) (next x) ids') :
    Issues given (action >>= next) ids' := by
  intro s others hs
  have hfirst := h s (others ++ given) (by rwa [List.append_nil])
  rw [List.append_assoc others] at hfirst
  exact h' _ _ others hfirst

/-- A silent action gives out no ids. -/
theorem Silent.issues (h : Silent action) : Issues [] action fun _ => [] := by
  intro s others hs
  rw [(h s).reserved_eq]
  exact hs.mono (h s).2

/-- A column sets a number aside for its node, if there is none. -/
theorem issues_nodeNumber (id : Int) : Issues [] (nodeNumber id) fun _ => [] := by
  intro s others hs
  rw [nodeNumber_eq]
  cases s.planNodes.lookup id with
  | some new => exact hs
  | none =>
    have hsub : (s.renumber (s.supply.next + 1) ((id, s.supply.next) :: s.planNodes) s.used s.conditions).reserved.Sublist
        (s.supply.next :: s.reserved) := by
      rw [reserved, renumber, List.map_cons, List.filter_cons]
      split
      · exact .refl _
      · exact List.sublist_cons_self _ _
    exact (hs.draw.perm List.perm_middle).sublist (hsub.append_left _)

/-- A node takes the number that was set aside for it, or a new one if another copy of it took that. -/
theorem issues_copyNumber (id : Int) : Issues [] (copyNumber id) fun new => [new] := by
  intro s others hs
  have hnumber := issues_nodeNumber id s others hs
  have hmem : (nodeNumber id s).1 ∈ (nodeNumber id s).2.planNodes.map Prod.snd :=
    List.mem_map_of_mem (mem_planNodes_nodeNumber id s)
  rw [copyNumber_eq]
  dsimp only
  generalize (nodeNumber id s).1 = mapped at hmem ⊢
  generalize (nodeNumber id s).2 = s at hnumber hmem ⊢
  rw [List.append_nil] at hnumber
  split
  next =>
    rw [List.append_assoc]
    exact hnumber.draw.perm List.perm_middle
  next hunused =>
    have hin : mapped ∈ s.reserved := List.mem_filter.2 ⟨hmem, by simpa using hunused⟩
    have hclaimed :
        (s.renumber s.supply.next s.planNodes (mapped :: s.used) s.conditions).reserved = s.reserved.erase mapped := by
      rw [(List.nodup_append.1 hnumber.1).2.1.erase_eq_filter, reserved, reserved, List.filter_filter]
      refine List.filter_congr fun new _ => ?_
      simp only [renumber, List.mem_cons, not_or, Bool.decide_and, decide_not, bne, Bool.beq_eq_decide_eq]
    refine hnumber.perm ?_
    rw [hclaimed, List.append_assoc]
    exact ((List.perm_cons_erase hin).symm).append_left others

end Duplication

open Duplication

/-! ## What nodes hold besides their inputs and operands -/

/-- The source of a column holds no ids of plan nodes. -/
theorem ColumnSource.issues_copy (c : ColumnSource) : Issues [] c.copy fun _ => [] := by
  cases c with
  | table s => exact (silent_source s).issues.bind fun _ => .pure (.refl _)
  | node id => exact (issues_nodeNumber id).bind fun _ => .pure (.refl _)

/-- What a leaf reads is copied without giving out ids. -/
theorem LeafOp.silent_copy (op : LeafOp) : Silent op.copy := by
  cases op with
  | tableSource s => exact (silent_source s).bind fun _ => .pure _
  | groupScan g => exact (silent_entity g).bind fun _ => .pure _
  | nothing => exact .pure _

/-- An operation with one input is copied without giving out ids. -/
theorem UnaryOp.silent_copy (op : UnaryOp) : Silent op.copy := by
  cases op with
  | modify kind target => exact (silent_source target).bind fun _ => .pure _
  | flatten nodes tables kinds =>
    exact (Silent.mapM silent_node nodes).bind fun _ =>
      (Silent.mapM (Silent.mapM_option silent_source) tables).bind fun _ => .pure _
  | ancestorLookup descendant ancestors tables =>
    exact (silent_node descendant).bind fun _ => (Silent.mapM silent_node ancestors).bind fun _ =>
      (Silent.mapM silent_source tables).bind fun _ => .pure _
  | branchLookup x ancestor branch tables =>
    exact (silent_node x).bind fun _ => (silent_node ancestor).bind fun _ => (silent_node branch).bind fun _ =>
      (Silent.mapM silent_source tables).bind fun _ => .pure _
  | _ => exact .pure _

/-- What the inputs of an operation share is copied without giving out ids. -/
theorem BinaryOp.silent_copyShared (op : BinaryOp) : Silent op.copyShared := by
  cases op with
  | usingHashTable table => exact (silent_entity table).bind fun _ => .pure _
  | usingBloomFilter filter => exact (silent_entity filter).bind fun _ => .pure _
  | _ => exact .pure _

/-- The joins of an operation are copied without giving out ids. -/
theorem BinaryOp.silent_copyJoins (op : BinaryOp) : Silent op.copyJoins := by
  cases op with
  | join op =>
    exact (Silent.mapM_option silent_entity op.groupJoin).bind fun _ =>
      (Silent.mapM_option silent_keyJoin op.keyJoin).bind fun _ => .pure _
  | _ => exact .pure _

/-- The copy of the head of a scan holds the id of the scan. -/
theorem ScanHead.issues_copy (h : ScanHead) : Issues [] h.copy fun h => [h.id] :=
  (issues_copyNumber h.id).bind fun _ => (silent_source h.rootMost).issues.bind fun _ =>
    (silent_source h.leafMost).issues.bind fun _ => (Silent.mapM silent_source h.tables).issues.bind fun _ =>
    (Silent.mapM silent_condition h.conditions).issues.bind fun _ => .pure (.refl _)

/-! ## Expressions, scans and plans -/

/-- A node whose parts were issued, and its own id. -/
theorem Duplication.Issues.node {given : List Int} {p : Plan} (h : given.Perm (p.id :: Subject.idsOf (Subject.plan p).parts)) :
    Issues given (pure p) Plan.nodeIds :=
  .pure ((Subject.nodeIds_perm (.plan p)).trans h.symm)

/-- An index scan whose parts were issued, and its own id. -/
theorem Duplication.Issues.scan {given : List Int} {s : Scan} (h : given.Perm (s.id :: Subject.idsOf s.parts)) :
    Issues given (pure s) fun s => (Plan.indexScan s).nodeIds :=
  .pure ((Subject.nodeIds_scan s).trans h.symm)

/-- An expression whose operands were issued. -/
theorem Duplication.Issues.expr {given : List Int} {e : Expr} (h : given.Perm (Subject.idsOf (Subject.expr e).parts)) :
    Issues given (pure e) fun e => (Subject.expr e).nodeIds :=
  .pure ((Subject.nodeIds_perm (.expr e)).trans h.symm)

/-- Without conditions a join tree holds no ids. -/
theorem Expr.issues_copyJoinTree_nil (nodes : List JoinTreeNode) :
    Issues [] (Expr.copyJoinTree nodes []) fun r => Subject.idsOf (r.2.flatten.map .expr) := by
  induction nodes with
  | nil =>
    rw [Expr.copyJoinTree, Expr.copyRows, pure_bind]
    exact .pure (.refl _)
  | cons n nodes ih =>
    rw [Expr.copyJoinTree]
    exact (silent_source n.table).issues.bind fun _ => ih.bind fun _ => .pure (.refl _)

mutual

/-- The ids in the copy of an expression are given out for it. -/
theorem Expr.issues_copy : ∀ e : Expr, Issues [] e.copy fun e => (Subject.expr e).nodeIds
  | .constant _ _ | .parameter _ _ | .aggregate _ none => by
    rw [Expr.copy]
    exact .expr (.refl _)
  | .column c => by
    rw [Expr.copy]
    exact c.source.issues_copy.bind fun _ => .expr (.refl _)
  | .cast e _ => by
    rw [Expr.copy]
    exact e.issues_copy.bind fun _ => .expr (by simp [Subject.parts, Subject.below, Expr.children])
  | .call _ es | .logical _ es | .special _ es => by
    rw [Expr.copy]
    exact (Expr.issues_copyAll es).bind fun _ => .expr (by simp [Subject.parts, Subject.below, Expr.children])
  | .aggregate _ (some e) => by
    rw [Expr.copy]
    exact e.issues_copy.bind fun _ => .expr (by simp [Subject.parts, Subject.below, Expr.children])
  | .comparison c l r => by
    rw [Expr.copy]
    exact (silent_condition c.id).issues.bind fun _ => l.issues_copy.bind fun _ => r.issues_copy.bind fun _ =>
      .expr (by simp [Subject.parts, Subject.below, Expr.children])
  | .inList e es => by
    rw [Expr.copy]
    exact e.issues_copy.bind fun _ => (Expr.issues_copyAll es).bind fun _ =>
      .expr (by simp [Subject.parts, Subject.below, Expr.children])
  | .subquery _ p _ => by
    rw [Expr.copy]
    exact p.issues_copy.bind fun _ => .expr (by simp [Subject.parts, Subject.below, Subject.nodeIds])

theorem Expr.issues_copyAll : ∀ es : List Expr, Issues [] (Expr.copyAll es) fun es => Subject.idsOf (es.map .expr)
  | [] => by
    rw [Expr.copyAll]
    exact .pure (.refl _)
  | e :: es => by
    rw [Expr.copyAll]
    exact e.issues_copy.bind fun _ => (Expr.issues_copyAll es).bind fun _ => .pure (by simp)

theorem Expr.issues_copyRows :
    ∀ rows : List (List Expr), Issues [] (Expr.copyRows rows) fun rows => Subject.idsOf (rows.flatten.map .expr)
  | [] => by
    rw [Expr.copyRows]
    exact .pure (.refl _)
  | row :: rows => by
    rw [Expr.copyRows]
    exact (Expr.issues_copyAll row).bind fun _ => (Expr.issues_copyRows rows).bind fun _ => .pure (by simp)

theorem Expr.issues_copyJoinTree : ∀ (nodes : List JoinTreeNode) (conditions : List (List Expr)),
    Issues [] (Expr.copyJoinTree nodes conditions) fun r => Subject.idsOf (r.2.flatten.map .expr)
  | nodes, [] => Expr.issues_copyJoinTree_nil nodes
  | [], row :: rows => by
    rw [Expr.copyJoinTree, Expr.copyRows, bind_assoc]
    simp only [bind_assoc, pure_bind]
    exact (Expr.issues_copyAll row).bind fun _ => (Expr.issues_copyRows rows).bind fun _ => .pure (by simp)
  | n :: nodes, row :: rows => by
    rw [Expr.copyJoinTree]
    exact (silent_source n.table).issues.bind fun _ => (Expr.issues_copyAll row).bind fun _ =>
      (Expr.issues_copyJoinTree nodes rows).bind fun _ => .pure (by simp)

theorem Expr.issues_copyBound : ∀ bound : Option (Bound Expr), Issues [] (Expr.copyBound bound) fun bound =>
    Subject.idsOf ((bound.map (·.comparand)).toList.map .expr)
  | none => .pure (.refl _)
  | some ⟨e, _⟩ => by
    rw [Expr.copyBound]
    exact e.issues_copy.bind fun _ => .pure (by simp)

theorem Expr.issues_copyPhase : ∀ phase : AggregatePhase Expr, Issues [] (Expr.copyPhase phase) fun phase =>
    Subject.idsOf (phase.operands.map .expr)
  | .bare groupBy => by
    rw [Expr.copyPhase]
    exact (Expr.issues_copyAll groupBy).bind fun _ => .pure (.refl _)
  | .resolved groupBy aggregates => by
    rw [Expr.copyPhase]
    exact (Expr.issues_copyAll groupBy).bind fun _ => (Expr.issues_copyAll aggregates).bind fun _ =>
      .pure (by simp [AggregatePhase.operands])
  | .split _ => .pure (.refl _)

theorem Scan.issues_copy : ∀ s : Scan, Issues [] s.copy fun s => (Plan.indexScan s).nodeIds
  | .single head ⟨_, _, _, ordering, equality, unions, low, high⟩ => by
    rw [Scan.copy_single]
    refine (Expr.issues_copyAll ordering).bind fun _ => (Expr.issues_copyAll equality).bind fun _ =>
      (Expr.issues_copyRows unions).bind fun _ => (Expr.issues_copyBound low).bind fun _ =>
      (Expr.issues_copyBound high).bind fun _ => head.issues_copy.bind fun _ => .scan ?_
    -- the scan itself gets its number after its parts
    rw [List.perm_iff_count]
    intro a
    simp [Scan.id, Scan.head, Scan.parts, SingleScan.comparands, List.count_append, List.count_cons]
    omega
  | .intersect head _ output selector => by
    rw [Scan.copy]
    refine output.issues_copy.bind fun _ => selector.issues_copy.bind fun _ => head.issues_copy.bind fun _ => .scan ?_
    rw [List.perm_iff_count]
    intro a
    simp [Scan.id, Scan.head, Scan.parts, Subject.nodeIds, List.count_append, List.count_cons]
    omega

/-- The ids of the nodes of a copy are new and different. -/
theorem Plan.issues_copy : ∀ p : Plan, Issues [] p.copy Plan.nodeIds
  | .leaf id op => by
    rw [Plan.copy]
    exact (issues_copyNumber id).bind fun _ => op.silent_copy.issues.bind fun _ => .node (.refl _)
  | .probe id (.groupLoop inside outside _) operands => by
    rw [Plan.copy]
    exact (issues_copyNumber id).bind fun _ => (silent_source inside).issues.bind fun _ =>
      (silent_source outside).issues.bind fun _ => (Expr.issues_copyAll operands).bind fun _ => .node (.refl _)
  | .probe id (.hashLookup table tables) operands => by
    rw [Plan.copy]
    refine (issues_copyNumber id).bind fun _ => (silent_entity table).issues.bind fun _ =>
      (Expr.issues_copyAll operands).bind fun _ => (Silent.mapM silent_source tables).issues.bind fun _ => .node ?_
    simp [Plan.id, Subject.parts, Subject.below, Plan.children, Plan.exprs]
  | .values id rows => by
    rw [Plan.copy]
    exact (issues_copyNumber id).bind fun _ => (Expr.issues_copyRows rows).bind fun _ => .node (.refl _)
  | .unary id op input operands => by
    rw [Plan.copy]
    refine (issues_copyNumber id).bind fun _ => input.issues_copy.bind fun _ => op.silent_copy.issues.bind fun _ =>
      (Expr.issues_copyAll operands).bind fun _ => .node ?_
    simp [Plan.id, Subject.parts, Subject.below, Plan.children, Plan.exprs, Subject.nodeIds]
  | .binary id op left right operands => by
    have hcopy (op : BinaryOp) : Issues [] (do
        let id ← copyNumber id
        let op ← op.copyShared
        let left ← left.copy
        let right ← right.copy
        let operands ← Expr.copyAll operands
        let op ← op.copyJoins
        pure (Plan.binary id op left right operands)) Plan.nodeIds := by
      refine (issues_copyNumber id).bind fun _ => op.silent_copyShared.issues.bind fun op => left.issues_copy.bind fun _ =>
        right.issues_copy.bind fun _ => (Expr.issues_copyAll operands).bind fun _ =>
        op.silent_copyJoins.issues.bind fun _ => .node ?_
      simp [Plan.id, Subject.parts, Subject.below, Plan.children, Plan.exprs, Subject.nodeIds]
    cases op with
    | bloomFilterFilter filter =>
      rw [Plan.copy]
      refine (issues_copyNumber id).bind fun _ => left.issues_copy.bind fun _ => (silent_entity filter).issues.bind fun _ =>
        (Expr.issues_copyAll operands).bind fun _ => right.issues_copy.bind fun _ => .node ?_
      -- the operands are copied between the inputs
      rw [List.perm_iff_count]
      intro a
      simp [Plan.id, Subject.parts, Subject.below, Plan.children, Plan.exprs, Subject.nodeIds, List.count_append,
        List.count_cons]
      omega
    | _ =>
      rw [Plan.copy]
      · exact hcopy _
      · nofun
  | .aggregate id op phase input => by
    rw [Plan.copy_aggregate]
    refine (Expr.issues_copyPhase phase).bind fun _ => (issues_copyNumber id).bind fun _ => input.issues_copy.bind fun _ =>
      (Silent.mapM_option silent_source op.table).issues.bind fun _ => .node ?_
    rw [List.perm_iff_count]
    intro a
    simp [Plan.id, Subject.parts, Subject.below, Plan.children, Plan.exprs, Subject.nodeIds, List.count_append,
      List.count_cons]
    omega
  | .tableJoins id g input scans => by
    rw [Plan.copy]
    refine (issues_copyNumber id).bind fun _ => input.issues_copy.bind fun _ => (silent_entity g).issues.bind fun _ =>
      (Plan.issues_copyAll scans).bind fun _ => .node ?_
    simp [Plan.id, Subject.parts, Subject.nodeIds]
  | .joinTree id g nodes conditions none => by
    rw [Plan.copy]
    refine (Expr.issues_copyJoinTree nodes conditions).bind fun _ => (issues_copyNumber id).bind fun _ =>
      (silent_entity g).issues.bind fun _ => .node ?_
    simp [Plan.id, Subject.parts, Subject.below, Plan.children, Plan.exprs, List.perm_append_singleton]
  | .joinTree id g nodes conditions (some scan) => by
    rw [Plan.copy]
    have hscan : Issues [] (do return some (← scan.copy)) fun scan => Subject.idsOf (scan.toList.map .plan) :=
      scan.issues_copy.bind fun _ => .pure (by simp [Subject.nodeIds])
    refine (Expr.issues_copyJoinTree nodes conditions).bind fun _ => (issues_copyNumber id).bind fun _ =>
      (silent_entity g).issues.bind fun _ => hscan.bind fun _ => .node ?_
    rw [List.perm_iff_count]
    intro a
    simp [Plan.id, Subject.parts, Subject.below, Plan.children, Plan.exprs, List.count_append, List.count_cons]
    omega
  | .indexScan s => by
    rw [Plan.copy]
    exact s.issues_copy.bind fun _ => .pure (.refl _)

theorem Plan.issues_copyAll : ∀ ps : List Plan, Issues [] (Plan.copyAll ps) fun ps => Subject.idsOf (ps.map .plan)
  | [] => by
    rw [Plan.copyAll]
    exact .pure (.refl _)
  | p :: ps => by
    rw [Plan.copyAll]
    exact p.issues_copy.bind fun _ => (Plan.issues_copyAll ps).bind fun _ => .pure (by simp [Subject.nodeIds])

end

end ClusterPlan
