import ClusterPlan.Plan.Text
import ClusterPlan.Proofs.Plan.Nodes
import Mathlib.Data.List.Perm.Basic

/-!
# What the text of a plan lists

The walk that writes a text adds the outline of a plan, with the depth of each node, and puts the subqueries in its operands
behind the plans that wait (`PlanWriter.run_acceptDeep`). The plans are served in the order in which they came to wait
(`Served`); each of them is found by its id, and what is written of all of them are the nodes of the plan and of its
subqueries, once each (`toText_eq`).
-/

namespace ClusterPlan

/-! ## Outlines -/

namespace Subject

/-- The nodes of a plan without those of subqueries, each with its depth. -/
def outline : Subject → Nat → List (Nat × Plan) :=
  fold fun
    | plan p, below => fun depth => (depth, p) :: below.flatMap fun lines => lines (depth + 1)
    | expr _, _ => fun _ => []

/-- The subqueries in the operands of all nodes of a plan, as a walk meets them that does not enter them. -/
def deferred : Subject → List Plan :=
  fold fun
    | plan _, below => below.flatten
    | expr (.subquery _ p _), _ => [p]
    | expr _, below => below.flatten

/-- A plan stands one level above what lies below it. -/
theorem outline_plan (p : Plan) (depth : Nat) :
    (plan p).outline depth = (depth, p) :: (plan p).below.flatMap fun x => x.outline (depth + 1) := by
  rw [outline, fold_eq]
  exact congrArg ((depth, p) :: ·) (List.flatMap_map _ _ _)

/-- The plans of subqueries have no lines among those of the plan. -/
theorem outline_expr (e : Expr) (depth : Nat) : (expr e).outline depth = [] := by rw [outline, fold_eq]

/-- The subqueries that a plan puts off are those of what lies below it. -/
theorem deferred_plan (p : Plan) : (plan p).deferred = (plan p).below.flatMap deferred := by
  rw [deferred, fold_eq]
  rfl

/-- An expression puts off its subqueries, but not those inside of them. -/
theorem deferred_expr (e : Expr) : (expr e).deferred = e.subqueries := by
  have hall (x : Subject) : ∀ e, x = expr e → x.deferred = x.plans := by
    induction x using Subject.inductionOn with
    | h x ih =>
      rintro e rfl
      -- the plan of a subquery is put off; below any other expression are expressions
      have hbelow (h : ∀ y ∈ (expr e).below, ∃ operand, y = expr operand) :
          (expr e).below.flatMap deferred = (expr e).plans := by
        rw [plans_expr]
        refine List.flatMap_congr fun y hy => ?_
        obtain ⟨operand, hoperand⟩ := h y hy
        exact ih y hy operand hoperand
      have hchildren : (expr e).below = e.children.map expr → ∀ y ∈ (expr e).below, ∃ operand, y = expr operand := by
        intro heq y hy
        rw [heq] at hy
        obtain ⟨operand, -, rfl⟩ := List.mem_map.1 hy
        exact ⟨operand, rfl⟩
      rw [deferred, fold_eq]
      cases e with
      | subquery => rfl
      | _ => exact hbelow (hchildren rfl)
  exact hall (expr e) e rfl

end Subject

namespace Plan

/-- The nodes of a plan without those of subqueries, each with its depth: a node before its inputs, which are one deeper. -/
def outline (depth : Nat) (p : Plan) : List (Nat × Plan) := (Subject.plan p).outline depth

/-- The subqueries in the operands of all nodes of a plan: those of the inputs of a node before those in its own operands.
Subqueries of subqueries are not among them. -/
def deferred (p : Plan) : List Plan := (Subject.plan p).deferred

/-- A plan stands one level above its inputs. -/
theorem outline_eq (depth : Nat) (p : Plan) : p.outline depth = (depth, p) :: p.children.flatMap (outline (depth + 1)) := by
  rw [outline, Subject.outline_plan, Subject.flatMap_below_of_nil fun e => Subject.outline_expr e (depth + 1)]
  rfl

/-- The subqueries of the inputs come before those of the node. -/
theorem deferred_eq (p : Plan) : p.deferred = p.children.flatMap deferred ++ p.subqueries := by
  have hexprs : (p.exprs.map Subject.expr).flatMap Subject.deferred = p.subqueries := by
    rw [List.flatMap_map, subqueries, ← Subject.flatMap_plans_expr, List.flatMap_map]
    exact List.flatMap_congr fun e _ => Subject.deferred_expr e
  rw [deferred, Subject.deferred_plan, Subject.below, List.flatMap_append, hexprs, List.flatMap_map]
  rfl

/-- The lines are about the nodes without those of subqueries, in their order. -/
theorem map_snd_outline (depth : Nat) (p : Plan) : (p.outline depth).map Prod.snd = p.preorder := by
  induction p using Plan.inductionOn generalizing depth with
  | h p ih =>
    rw [outline_eq, preorder_eq, List.map_cons, List.map_flatMap]
    exact congrArg (p :: ·) (List.flatMap_congr fun c hc => ih c (p.children_subset_plansBelow hc) (depth + 1))

/-- The nodes of a plan are its own ones and those of the subqueries that a walk puts off. -/
theorem nodes_perm (p : Plan) : p.nodes.Perm (p.preorder ++ p.deferred.flatMap nodes) := by
  induction p using Plan.inductionOn with
  | h p ih =>
    have hchildren : (p.children.flatMap nodes).Perm
        (p.children.flatMap fun c => c.preorder ++ c.deferred.flatMap nodes) :=
      List.Perm.flatMap_left p.children fun c hc => ih c (p.children_subset_plansBelow hc)
    have hsplit := List.flatMap_append_perm p.children preorder fun c => c.deferred.flatMap nodes
    have hdeferred : p.deferred.flatMap nodes =
        (p.children.flatMap fun c => c.deferred.flatMap nodes) ++ p.subqueries.flatMap nodes := by
      rw [deferred_eq, List.flatMap_append, List.flatMap_assoc]
    rw [nodes_eq, preorder_eq, plansBelow, hdeferred, List.flatMap_append, List.cons_append, ← List.append_assoc]
    exact ((hchildren.trans hsplit.symm).append_right _).cons p

/-- The roots of the subqueries are nodes of the plan. -/
theorem deferred_subset_nodes (p : Plan) : p.deferred ⊆ p.nodes := by
  intro r hr
  have hmem : r ∈ p.deferred.flatMap nodes := List.mem_flatMap.2 ⟨r, hr, r.self_mem_nodes⟩
  exact p.nodes_perm.mem_iff.2 (List.mem_append_right _ hmem)

end Plan

/-! ## The number of subqueries -/

/-- The number of plans that are written if some plans wait: themselves and the subqueries at any depth in their operands. -/
def workload (waiting : List Plan) : Nat := (waiting.map fun p => p.subqueryCount + 1).sum

theorem workload_cons (p : Plan) (waiting : List Plan) : workload (p :: waiting) = p.subqueryCount + 1 + workload waiting := rfl

/-- The work for plans that wait in two queues is the work for both. -/
theorem workload_append (waiting more : List Plan) : workload (waiting ++ more) = workload waiting + workload more := by
  rw [workload, List.map_append, List.sum_append]
  rfl

namespace Expr

mutual

/-- An expression counts its subqueries with all subqueries inside of them. -/
theorem subqueryCount_eq : ∀ e : Expr, e.subqueryCount = workload e.subqueries
  | .constant _ _ | .parameter _ _ | .column _ | .aggregate _ none => rfl
  | .cast operand _ => operand.subqueryCount_eq
  | .call _ operands | .logical _ operands | .special _ operands => subqueryCountIn_eq operands
  | .aggregate _ (some operand) => operand.subqueryCount_eq
  | .comparison _ left right => by
    rw [subqueryCount, left.subqueryCount_eq, right.subqueryCount_eq, subqueries, workload_append]
  | .inList operand list => by
    rw [subqueryCount, operand.subqueryCount_eq, subqueryCountIn_eq, subqueries, workload_append]
  | .subquery _ plan _ => Nat.add_comm _ _

theorem subqueryCountIn_eq : ∀ es : List Expr, subqueryCountIn es = workload (subqueriesOf es)
  | [] => rfl
  | e :: es => by rw [subqueryCountIn, e.subqueryCount_eq, subqueryCountIn_eq es, subqueriesOf, workload_append]

end

theorem subqueryCountInRows_eq (rows : List (List Expr)) :
    subqueryCountInRows rows = workload (subqueriesOf rows.flatten) := by
  induction rows with
  | nil => rfl
  | cons row rows ih =>
    rw [subqueryCountInRows, subqueryCountIn_eq, ih, List.flatten_cons, subqueriesOf_append, workload_append]

end Expr

theorem Scan.subqueryCount_eq (s : Scan) : s.subqueryCount = workload (Expr.subqueriesOf s.comparands) := by
  induction s using Scan.inductionOn with
  | single head s =>
    obtain ⟨_, _, _, _, equality, unions, low, high⟩ := s
    rcases low with _ | ⟨low, _⟩ <;> rcases high with _ | ⟨high, _⟩ <;>
      simp [Scan.subqueryCount, Scan.comparands, SingleScan.comparands, Expr.subqueryCountIn_eq,
        Expr.subqueryCountInRows_eq, Expr.subqueryCount_eq, Expr.subqueriesOf_append, Expr.subqueriesOf, workload_append,
        Nat.add_assoc]
  | intersect _ _ output selector houtput hselector =>
    rw [Scan.subqueryCount, houtput, hselector, Scan.comparands, Expr.subqueriesOf_append, workload_append]

namespace Plan

/-- A plan counts the subqueries of its inputs and its own with all that are inside of them. -/
theorem subqueryCount_eq (p : Plan) :
    p.subqueryCount = (p.children.map subqueryCount).sum + workload p.subqueries := by
  cases p with
  | leaf i op => rfl
  | probe i op operands => rw [subqueryCount, Expr.subqueryCountIn_eq]; exact (Nat.zero_add _).symm
  | values i rows => rw [subqueryCount, Expr.subqueryCountInRows_eq]; exact (Nat.zero_add _).symm
  | unary i op input operands => rw [subqueryCount, Expr.subqueryCountIn_eq]; rfl
  | binary i op left right operands => rw [subqueryCount, Expr.subqueryCountIn_eq]; rfl
  | aggregate i op phase input =>
    cases phase with
    | bare groupBy => rw [subqueryCount, Expr.subqueryCountIn_eq]; rfl
    | resolved groupBy aggregates =>
      rw [subqueryCount, Expr.subqueryCountIn_eq, Expr.subqueryCountIn_eq, ← workload_append, ← Expr.subqueriesOf_append]
      rfl
    | split info => rfl
  | tableJoins i group input scans => rfl
  | joinTree i group nodes conditions scan =>
    cases scan with
    | none => rw [subqueryCount, Expr.subqueryCountInRows_eq]; exact (Nat.zero_add _).symm
    | some scan => rw [subqueryCount, Expr.subqueryCountInRows_eq]; rfl
  | indexScan s => rw [subqueryCount, s.subqueryCount_eq]; exact (Nat.zero_add _).symm

/-- All subqueries of a plan are those that a walk puts off and theirs. -/
theorem workload_deferred (p : Plan) : workload p.deferred = p.subqueryCount := by
  induction p using Plan.inductionOn with
  | h p ih =>
    have hchildren (children : List Plan) (h : ∀ c ∈ children, workload c.deferred = c.subqueryCount) :
        workload (children.flatMap deferred) = (children.map subqueryCount).sum := by
      induction children with
      | nil => rfl
      | cons c children ihc =>
        obtain ⟨hc, hrest⟩ := List.forall_mem_cons.1 h
        rw [List.flatMap_cons, workload_append, hc, ihc hrest]
        rfl
    rw [deferred_eq, workload_append, subqueryCount_eq, hchildren _ fun c hc => ih c (p.children_subset_plansBelow hc)]

end Plan

/-! ## Writing -/

namespace PlanWriter

/-- The line of a node at some depth. -/
def lineAt (ctx : Context) (entry : Nat × Plan) : String :=
  String.ofList (List.replicate (entry.1 * ctx.config.indent.toNat) ' ') ++ entry.2.summary ctx

/-- Adds the lines of a subject and lets its subqueries wait. -/
def write (ctx : Context) (w : PlanWriter) (x : Subject) : PlanWriter :=
  { w with
    lines := w.lines ++ (x.outline w.depth).map (lineAt ctx)
    pending := w.pending ++ x.deferred.map Plan.id }

variable {ctx : Context}

/-- Writing subjects one after the other adds the lines of each at the same depth. -/
theorem foldl_write (xs : List Subject) (w : PlanWriter) :
    xs.foldl (write ctx) w =
      { w with
        lines := w.lines ++ (xs.flatMap fun x => x.outline w.depth).map (lineAt ctx)
        pending := w.pending ++ (xs.flatMap Subject.deferred).map Plan.id } := by
  induction xs generalizing w with
  | nil => simp
  | cons x xs ih =>
    rw [List.foldl_cons, ih]
    simp only [write, List.flatMap_cons, List.map_append, List.append_assoc]

/-- Walking a subject writes it, and nothing holds the walk up. -/
theorem run_acceptDeep (x : Subject) (w : PlanWriter) : (x.acceptDeep (visitor ctx)).run w = (true, w.write ctx x) := by
  induction x using Subject.inductionOn generalizing w with
  | h x ih =>
    have hbelow (w : PlanWriter) := run_series ih w
    rw [leads_acceptDeep]
    cases x with
    | plan p =>
      by_cases hleaf : (Subject.plan p).isLeaf
      · have hnone := Subject.below_of_isLeaf hleaf
        rw [if_pos hleaf, write, Subject.outline_plan, Subject.deferred_plan, hnone]
        exact congrArg (fun pending => (true, { w.line ctx p with pending })) (List.append_nil _).symm
      · have hentered (w : PlanWriter) : ((visitor ctx).enterOf (.plan p)).run w =
            (true, { w.line ctx p with depth := w.depth + 1 }) := rfl
        have hleft (w : PlanWriter) : ((visitor ctx).leaveOf (.plan p)).run w =
            (true, { w with depth := w.depth - 1 }) := rfl
        rw [if_neg hleaf, Visitor.run_aroundOf, hentered, if_pos rfl, hbelow, hleft, foldl_write, write,
          Subject.outline_plan, Subject.deferred_plan, List.map_cons]
        simp only [line, lineAt, List.append_assoc, List.singleton_append, Nat.add_sub_cancel]
    | expr e =>
      have hwrite (w : PlanWriter) (pending : List Int) (h : (Subject.expr e).deferred.map Plan.id = pending) :
          w.write ctx (.expr e) = { w with pending := w.pending ++ pending } := by
        rw [write, Subject.outline_expr, List.map_nil, List.append_nil, h]
      -- where only operands lie below, nothing is written of them either
      have hoperands (hchildren : (Subject.expr e).below = e.children.map .expr)
          (hdeferred : (Subject.expr e).deferred = (Subject.expr e).below.flatMap Subject.deferred) :
          (series ((Subject.expr e).below.map (Subject.acceptDeep (visitor ctx)))).run w = (true, w.write ctx (.expr e)) := by
        have hlines : ((Subject.expr e).below.flatMap fun x => x.outline w.depth) = [] := by
          rw [hchildren, List.flatMap_map]
          exact List.flatMap_eq_nil_iff.2 fun operand _ => Subject.outline_expr operand w.depth
        rw [hbelow, foldl_write, hlines, hwrite w _ rfl, hdeferred, List.map_nil, List.append_nil]
      cases e with
      | constant | parameter | column =>
        rw [hwrite w [] rfl, List.append_nil]
        rfl
      | subquery kind p type =>
        rw [hwrite w [p.id] rfl]
        rfl
      | _ => exact congrArg (fun r => (true, r.2)) (hoperands rfl (Subject.fold_eq _ _))

end PlanWriter

/-! ## The queue -/

/-- The order in which plans are served that wait in a queue: the first one first, and the subqueries that it puts off join
the end of the queue. -/
inductive Served : List Plan → List Plan → Prop where
  | nil : Served [] []
  | cons {p : Plan} {queue order : List Plan} : Served (queue ++ p.deferred) order → Served (p :: queue) (p :: order)

/-- A queue is served in one order only. -/
theorem Served.unique {queue order order' : List Plan} (h : Served queue order) (h' : Served queue order') : order = order' := by
  induction h generalizing order' with
  | nil =>
    cases h'
    rfl
  | cons _ ih =>
    cases h' with
    | cons h' => rw [ih h']

/-- All plans of a queue and all subqueries in them are served, so that all their nodes are. -/
theorem Served.perm {queue order : List Plan} (h : Served queue order) :
    (order.flatMap Plan.preorder).Perm (queue.flatMap Plan.nodes) := by
  induction h with
  | nil => exact .refl _
  | @cons p queue order _ ih =>
    rw [List.flatMap_append] at ih
    have hp : (p.preorder ++ (queue.flatMap Plan.nodes ++ p.deferred.flatMap Plan.nodes)).Perm
        (p.nodes ++ queue.flatMap Plan.nodes) := by
      have hswap : (queue.flatMap Plan.nodes ++ p.deferred.flatMap Plan.nodes).Perm
          (p.deferred.flatMap Plan.nodes ++ queue.flatMap Plan.nodes) := List.perm_append_comm
      have hmove := hswap.append_left p.preorder
      rw [← List.append_assoc p.preorder (p.deferred.flatMap Plan.nodes)] at hmove
      exact hmove.trans (p.nodes_perm.symm.append_right _)
    rw [List.flatMap_cons, List.flatMap_cons]
    exact (ih.append_left p.preorder).trans hp

namespace PlanWriter

variable (ctx : Context)

/-- The plans that wait are found by their ids and written in the order in which they are served. -/
theorem exists_served {root : Plan} (hroot : root.DistinctIds) (queue : List Plan) (hqueue : ∀ q ∈ queue, q ∈ root.nodes)
    {fuel : Nat} (hfuel : workload queue ≤ fuel) (w : PlanWriter) (hw : w.pending = queue.map Plan.id) :
    ∃ order, Served queue order ∧
      (writePending ctx root fuel w).lines = w.lines ++ (order.flatMap (Plan.outline 0)).map (lineAt ctx) := by
  -- serving a plan takes one unit of fuel, and exactly that much less work is left
  induction fuel generalizing queue w with
  | zero =>
    cases queue with
    | nil => exact ⟨[], .nil, (List.append_nil _).symm⟩
    | cons p queue => exact absurd (workload_cons p queue ▸ hfuel) (by omega)
  | succ fuel ih =>
    cases queue with
    | nil =>
      refine ⟨[], .nil, ?_⟩
      rw [writePending, hw]
      exact (List.append_nil _).symm
    | cons p queue =>
      obtain ⟨hp, hrest⟩ := List.forall_mem_cons.1 hqueue
      let next : PlanWriter := write ctx { lines := w.lines, pending := queue.map Plan.id } (.plan p)
      have hnext : (p.acceptDeep (visitor ctx)).run { lines := w.lines, pending := queue.map Plan.id } = (true, next) :=
        run_acceptDeep (.plan p) _
      have hstep : writePending ctx root (fuel + 1) w = writePending ctx root fuel next := by
        simp only [writePending, hw, List.map_cons, hroot.find?_id hp, hnext]
      have hpending : next.pending = (queue ++ p.deferred).map Plan.id := List.map_append.symm
      have hnodes : ∀ q ∈ queue ++ p.deferred, q ∈ root.nodes :=
        List.forall_mem_append.2 ⟨hrest, fun q hq => Plan.nodes_subset hp (p.deferred_subset_nodes hq)⟩
      have hless : workload (queue ++ p.deferred) ≤ fuel := by
        rw [workload_cons] at hfuel
        rw [workload_append, p.workload_deferred]
        omega
      obtain ⟨order, hserved, hlines⟩ := ih _ hnodes hless next hpending
      refine ⟨p :: order, .cons hserved, ?_⟩
      have hwritten : next.lines = w.lines ++ (p.outline 0).map (lineAt ctx) := rfl
      rw [hstep, hlines, hwritten, List.flatMap_cons, List.map_append, List.append_assoc]

end PlanWriter

/-! ## The text -/

/-- The text of a plan whose nodes have different ids, for any indentation: the summaries of nodes, one in a line behind as many
blanks as the depth of the node demands, in the outlines of the plan and of its subqueries, which are served first in, first
out. Every node of the plan and of its subqueries at any depth has one line. -/
theorem toText_eq (ctx : Context) (p : Plan) (h : p.DistinctIds) :
    ∃ order, Served [p] order ∧
      p.toText ctx = "\n".intercalate ((order.flatMap (Plan.outline 0)).map (PlanWriter.lineAt ctx)) ∧
      ((order.flatMap (Plan.outline 0)).map Prod.snd).Perm p.nodes ∧
      ((order.flatMap (Plan.outline 0)).map fun entry => entry.2.id).Nodup := by
  have hfuel : workload [p] ≤ p.subqueryCount + 1 := Nat.le_refl _
  obtain ⟨order, hserved, hlines⟩ := PlanWriter.exists_served ctx h [p]
    (List.forall_mem_singleton.2 p.self_mem_nodes) hfuel { pending := [p.id] } rfl
  have hnodes : ((order.flatMap (Plan.outline 0)).map Prod.snd).Perm p.nodes := by
    have hpreorder : (order.flatMap (Plan.outline 0)).map Prod.snd = order.flatMap Plan.preorder := by
      rw [List.map_flatMap]
      exact List.flatMap_congr fun q _ => q.map_snd_outline 0
    have hperm := hserved.perm
    rwa [← hpreorder, List.flatMap_singleton] at hperm
  refine ⟨order, hserved, ?_, hnodes, ?_⟩
  · rw [Plan.toText, hlines]
    rfl
  · have hids := (hnodes.map Plan.id).nodup_iff.2 h
    rwa [List.map_map] at hids

open ComparedSubquery in
/-- The input of a selection is written below it and one deeper, the subquery that the selection compares with behind them. -/
theorem toText_of_compared_subquery :
    plan.DistinctIds ∧ plan.toText {} = "\n".intercalate
      [PlanWriter.lineAt {} (0, plan), PlanWriter.lineAt {} (1, .values 1 [[.long 4]]),
        PlanWriter.lineAt {} (0, .values 3 [[.long 2, .cast (.long 3) ⟨.int, true⟩]])] := by
  have hdistinct : plan.DistinctIds := by
    rw [Plan.DistinctIds]
    decide
  obtain ⟨order, hserved, htext, -⟩ := toText_eq {} plan hdistinct
  have horder : order = [plan, .values 3 [[.long 2, .cast (.long 3) ⟨.int, true⟩]]] :=
    hserved.unique (.cons (.cons .nil))
  rw [horder] at htext
  exact ⟨hdistinct, htext⟩

end ClusterPlan
