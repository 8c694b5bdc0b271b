import ClusterPlan.Plan.Search
import ClusterPlan.Proofs.Plan.Rewriting
import Mathlib.Algebra.GroupWithZero.Nat
import Mathlib.Data.List.Flatten
import Mathlib.Data.List.Nodup

/-!
# The nodes of a plan

Seen without its expressions a plan is a tree of nodes: right below a node are its inputs, and behind them the roots of the
subqueries in its operands (`Plan.plansBelow`). `Plan.nodes` lists the nodes of a plan and of all its subqueries, a node before
what lies below it. A search by id finds the first of them that has the id (`Plan.find?_eq`), and a walk that nothing holds up
comes to all of them in this order (`Visitor.NeverPrunes.filterMap_node?`).
-/

namespace ClusterPlan

/-- The plans right below a node: its inputs and then the roots of the subqueries in its operands. -/
def Plan.plansBelow (p : Plan) : List Plan := p.children ++ p.subqueries

namespace Subject

/-- The node that a subject is, if it is one. -/
def plan? : Subject → Option Plan
  | plan p => some p
  | expr _ => none

/-- The plans at the top of a subject: itself, or the subqueries of an expression. -/
def plans : Subject → List Plan
  | plan p => [p]
  | expr e => e.subqueries

/-- The nodes of a subject, a node before what lies below it. -/
def nodes : Subject → List Plan := fold fun x below => x.plan?.toList ++ below.flatten

/-- The nodes of a subject are the subject, if it is a plan, and those of what lies below it. -/
theorem nodes_eq (x : Subject) : x.nodes = x.plan?.toList ++ x.below.flatMap nodes := fold_eq _ _

/-- The plans at the top of some expressions are the subqueries in them. -/
theorem flatMap_plans_expr (es : List Expr) : (es.map expr).flatMap plans = Expr.subqueriesOf es := by
  induction es with
  | nil => rfl
  | cons e es ih => exact congrArg (e.subqueries ++ ·) ih

/-- The plans at the top of an expression are those at the top of what lies below it. -/
theorem plans_expr (e : Expr) : (expr e).plans = (expr e).below.flatMap plans := by
  cases e with
  | constant | parameter | column => rfl
  | cast | subquery => exact (List.append_nil _).symm
  | call | logical | special => exact (flatMap_plans_expr _).symm
  | comparison => exact congrArg (_ ++ ·) (List.append_nil _).symm
  | inList => exact congrArg (_ ++ ·) (flatMap_plans_expr _).symm
  | aggregate f operand =>
    cases operand with
    | none => rfl
    | some operand => exact (List.append_nil _).symm

/-- The plans right below a node are those at the top of what lies below it. -/
theorem plansBelow_eq (p : Plan) : p.plansBelow = (plan p).below.flatMap plans := by
  have hchildren : (p.children.map plan).flatMap plans = p.children := by
    rw [List.flatMap_map]
    exact List.flatMap_singleton' _
  calc p.plansBelow
    _ = (p.children.map plan).flatMap plans ++ (p.exprs.map expr).flatMap plans := by
      rw [hchildren, flatMap_plans_expr]
      rfl
    _ = (plan p).below.flatMap plans := List.flatMap_append.symm

/-- A list that expressions only hand on from below comes from the plans at the top. -/
theorem eq_flatMap_plans {β : Type} {g : Subject → List β} (hg : ∀ e, g (expr e) = (expr e).below.flatMap g) (x : Subject) :
    g x = x.plans.flatMap fun p => g (plan p) := by
  induction x using Subject.inductionOn with
  | h x ih =>
    cases x with
    | plan p => exact (List.flatMap_singleton _ _).symm
    | expr e =>
      rw [hg, plans_expr, List.flatMap_assoc]
      exact List.flatMap_congr ih

/-- What is collected below a plan, and of expressions only below them, is collected from the plans right below. -/
theorem flatMap_below {β : Type} {g : Subject → List β} (hg : ∀ e, g (expr e) = (expr e).below.flatMap g) (p : Plan) :
    (plan p).below.flatMap g = p.plansBelow.flatMap fun q => g (plan q) := by
  rw [plansBelow_eq, List.flatMap_assoc]
  exact List.flatMap_congr fun x _ => eq_flatMap_plans hg x

/-- Where expressions have nothing, a node has what its inputs have. -/
theorem flatMap_below_of_nil {β : Type} {g : Subject → List β} (hg : ∀ e, g (expr e) = []) (p : Plan) :
    (plan p).below.flatMap g = p.children.flatMap fun c => g (plan c) := by
  have hexprs : (p.exprs.map expr).flatMap g = [] := by
    rw [List.flatMap_map]
    exact List.flatMap_eq_nil_iff.2 fun e _ => hg e
  calc (plan p).below.flatMap g
    _ = (p.children.map plan).flatMap g ++ (p.exprs.map expr).flatMap g := List.flatMap_append
    _ = p.children.flatMap fun c => g (plan c) := by rw [hexprs, List.append_nil, List.flatMap_map]

/-- The nodes of a plan without those of subqueries. -/
def preorder : Subject → List Plan :=
  fold fun
    | plan p, below => p :: below.flatten
    | expr _, _ => []

end Subject

namespace Plan

/-- A property that passes from the plans right below a node to the node holds of every plan. -/
@[elab_as_elim]
theorem inductionOn {P : Plan → Prop} (p : Plan) (h : ∀ p : Plan, (∀ q ∈ p.plansBelow, P q) → P p) : P p := by
  have hplans (x : Subject) : ∀ q ∈ x.plans, P q := by
    induction x using Subject.inductionOn with
    | h x ih =>
      have hbelow : ∀ q ∈ x.below.flatMap Subject.plans, P q := by
        intro q hq
        obtain ⟨y, hy, hq⟩ := List.mem_flatMap.1 hq
        exact ih y hy q hq
      cases x with
      | plan p => exact List.forall_mem_singleton.2 (h p (Subject.plansBelow_eq p ▸ hbelow))
      | expr e => exact Subject.plans_expr e ▸ hbelow
  exact hplans (.plan p) p (List.mem_singleton_self p)

/-- The nodes of a plan and of all its subqueries, a node before what lies below it. -/
def nodes (p : Plan) : List Plan := (Subject.plan p).nodes

/-- The nodes of a plan are the plan and those of the plans right below it. -/
theorem nodes_eq (p : Plan) : p.nodes = p :: p.plansBelow.flatMap nodes := by
  rw [nodes, Subject.nodes_eq, Subject.flatMap_below fun e => Subject.nodes_eq (.expr e)]
  rfl

/-- A plan is one of its nodes. -/
theorem self_mem_nodes (p : Plan) : p ∈ p.nodes := by
  rw [nodes_eq]
  exact List.mem_cons_self

/-- A node of a plan is the plan or a node of one of the plans right below. -/
theorem mem_nodes_iff {p q : Plan} : q ∈ p.nodes ↔ q = p ∨ ∃ r ∈ p.plansBelow, q ∈ r.nodes := by
  rw [nodes_eq, List.mem_cons, List.mem_flatMap]

/-- The nodes of a plan are what can be reached from its root by going to an input or into a subquery. -/
theorem mem_nodes_iff_reflTransGen {p q : Plan} :
    q ∈ p.nodes ↔ Relation.ReflTransGen (fun p q => q ∈ p.plansBelow) p q := by
  induction p using Plan.inductionOn with
  | h p ih =>
    rw [mem_nodes_iff, Relation.ReflTransGen.cases_head_iff]
    refine or_congr eq_comm (exists_congr fun r => and_congr_right fun hr => ih r hr)

/-- The nodes of a node of a plan are nodes of the plan. -/
theorem nodes_subset {p q : Plan} (h : q ∈ p.nodes) : q.nodes ⊆ p.nodes := by
  intro r hr
  rw [mem_nodes_iff_reflTransGen] at h hr ⊢
  exact h.trans hr

/-- All nodes of a plan and of its subqueries have different ids. -/
def DistinctIds (p : Plan) : Prop := (p.nodes.map id).Nodup

/-- The inputs of a node are right below it. -/
theorem children_subset_plansBelow (p : Plan) : p.children ⊆ p.plansBelow := List.subset_append_left _ _

/-- The nodes of a plan without those of subqueries, a node before its inputs. -/
def preorder (p : Plan) : List Plan := (Subject.plan p).preorder

/-- A node comes before the nodes of its inputs. -/
theorem preorder_eq (p : Plan) : p.preorder = p :: p.children.flatMap preorder := by
  have hexpr (e : Expr) : (Subject.expr e).preorder = [] := Subject.fold_eq _ _
  have hbelow := Subject.flatMap_below_of_nil hexpr p
  rw [preorder, Subject.preorder, Subject.fold_eq]
  exact congrArg (p :: ·) hbelow

/-- Without subqueries the nodes come in the same order. -/
theorem preorder_sublist (p : Plan) : p.preorder.Sublist p.nodes := by
  induction p using Plan.inductionOn with
  | h p ih =>
    rw [preorder_eq, nodes_eq, plansBelow, List.flatMap_append]
    have hchildren : (p.children.flatMap preorder).Sublist (p.children.flatMap nodes) :=
      List.Sublist.flatMap_right _ fun c hc => ih c (p.children_subset_plansBelow hc)
    exact (hchildren.trans (List.sublist_append_left _ _)).cons_cons p

/-- A node counts for one, and its inputs for theirs. -/
theorem nodeCount_eq (p : Plan) : p.nodeCount = 1 + (p.children.map nodeCount).sum := by
  cases p with
  | leaf | probe | values | unary | aggregate | tableJoins | indexScan => rfl
  | binary => exact Nat.add_assoc _ _ _
  | joinTree id group nodes conditions scan => cases scan <;> rfl

/-- The nodes that are counted are those without subqueries. -/
theorem length_preorder (p : Plan) : p.preorder.length = p.nodeCount := by
  induction p using Plan.inductionOn with
  | h p ih =>
    have hchildren : p.children.map (fun c => c.preorder.length) = p.children.map nodeCount :=
      List.map_congr_left fun c hc => ih c (p.children_subset_plansBelow hc)
    rw [preorder_eq, nodeCount_eq, List.length_cons, List.length_flatMap, hchildren, Nat.add_comm]

/-- Where ids are distinct, a node is known by its id. -/
theorem DistinctIds.eq_of_id_eq {p q r : Plan} (h : p.DistinctIds) (hq : q ∈ p.nodes) (hr : r ∈ p.nodes)
    (hid : q.id = r.id) : q = r :=
  List.inj_on_of_nodup_map h hq hr hid

end Plan

/-! ## Finding -/

namespace Expr

/-- The subqueries of two lists of expressions come one after the other. -/
theorem subqueriesOf_append (es more : List Expr) : subqueriesOf (es ++ more) = subqueriesOf es ++ subqueriesOf more := by
  rw [← Subject.flatMap_plans_expr, ← Subject.flatMap_plans_expr, ← Subject.flatMap_plans_expr, List.map_append,
    List.flatMap_append]

variable (id : Int)

mutual

/-- In an expression its subqueries are searched in turn. -/
theorem findPlan?_eq : ∀ e : Expr, e.findPlan? id = e.subqueries.findSome? (Plan.find? id)
  | .constant _ _ | .parameter _ _ | .column _ | .aggregate _ none => rfl
  | .cast operand _ => operand.findPlan?_eq
  | .call _ operands | .logical _ operands | .special _ operands => findPlanIn?_eq operands
  | .aggregate _ (some operand) => operand.findPlan?_eq
  | .comparison _ left right =>
    (congrArg₂ Option.or left.findPlan?_eq right.findPlan?_eq).trans List.findSome?_append.symm
  | .inList operand list =>
    (congrArg₂ Option.or operand.findPlan?_eq (findPlanIn?_eq list)).trans List.findSome?_append.symm
  | .subquery _ _ _ => List.findSome?_singleton.symm

/-- In a list of expressions their subqueries are searched in turn. -/
theorem findPlanIn?_eq : ∀ es : List Expr, findPlanIn? id es = (subqueriesOf es).findSome? (Plan.find? id)
  | [] => rfl
  | e :: es => (congrArg₂ Option.or e.findPlan?_eq (findPlanIn?_eq es)).trans List.findSome?_append.symm

end

/-- In lists of expressions their subqueries are searched in turn. -/
theorem findPlanInRows?_eq (rows : List (List Expr)) :
    findPlanInRows? id rows = (subqueriesOf rows.flatten).findSome? (Plan.find? id) := by
  induction rows with
  | nil => rfl
  | cons row rows ih =>
    rw [List.flatten_cons, subqueriesOf_append, List.findSome?_append, ← ih, ← findPlanIn?_eq]
    rfl

/-- In a bound the subqueries of its comparand are searched in turn. -/
theorem findPlanInBound?_eq (bound : Option (Bound Expr)) :
    findPlanInBound? id bound = (subqueriesOf (bound.map (·.comparand)).toList).findSome? (Plan.find? id) := by
  cases bound with
  | none => rfl
  | some bound => exact (bound.comparand.findPlan?_eq id).trans (congrArg (List.findSome? _) (List.append_nil _).symm)

end Expr

/-- In a scan the subqueries of its comparands are searched in turn. -/
theorem Scan.findPlan?_eq (id : Int) (s : Scan) :
    s.findPlan? id = (Expr.subqueriesOf s.comparands).findSome? (Plan.find? id) := by
  induction s using Scan.inductionOn with
  | single head s =>
    obtain ⟨_, _, _, _, equality, unions, low, high⟩ := s
    rw [comparands, SingleScan.comparands, Expr.subqueriesOf_append, Expr.subqueriesOf_append, Expr.subqueriesOf_append,
      List.findSome?_append, List.findSome?_append, List.findSome?_append, ← Expr.findPlanIn?_eq, ← Expr.findPlanInRows?_eq,
      ← Expr.findPlanInBound?_eq, ← Expr.findPlanInBound?_eq, Option.or_assoc, Option.or_assoc]
    rfl
  | intersect _ _ output selector houtput hselector =>
    rw [comparands, Expr.subqueriesOf_append, List.findSome?_append, ← houtput, ← hselector]
    rfl

namespace Plan

/-- A search looks at the node and then at the plans right below. -/
theorem find?_eq_ite (id : Int) (p : Plan) :
    p.find? id = if p.id = id then some p else p.plansBelow.findSome? (find? id) := by
  have hone (input : Plan) : [input].findSome? (find? id) = input.find? id := List.findSome?_singleton
  have htwo (left right : Plan) : [left, right].findSome? (find? id) = (left.find? id).or (right.find? id) := by
    rw [← hone left, ← hone right, ← List.findSome?_append, List.singleton_append]
  rw [plansBelow, List.findSome?_append]
  cases p with
  | leaf i op => rfl
  | probe i op operands => exact congrArg (ite _ _) (Expr.findPlanIn?_eq id _)
  | values i rows => exact congrArg (ite _ _) (Expr.findPlanInRows?_eq id _)
  | unary i op input operands =>
    exact congrArg (ite _ _) (congrArg₂ Option.or (hone input).symm (Expr.findPlanIn?_eq id _))
  | binary i op left right operands =>
    exact congrArg (ite _ _) (Option.or_assoc.symm.trans
      (congrArg₂ Option.or (htwo left right).symm (Expr.findPlanIn?_eq id _)))
  | aggregate i op phase input =>
    cases phase with
    | bare groupBy => exact congrArg (ite _ _) (congrArg₂ Option.or (hone input).symm (Expr.findPlanIn?_eq id _))
    | resolved groupBy aggregates =>
      have hphase : (Expr.findPlanIn? id groupBy).or (Expr.findPlanIn? id aggregates) =
          (Expr.subqueriesOf (groupBy ++ aggregates)).findSome? (find? id) := by
        rw [Expr.findPlanIn?_eq, Expr.findPlanIn?_eq, ← List.findSome?_append, ← Expr.subqueriesOf_append]
      exact congrArg (ite _ _) (congrArg₂ Option.or (hone input).symm hphase)
    | split info => exact congrArg (ite _ _) (congrArg (Option.or · none) (hone input).symm)
  | tableJoins i group input scans =>
    exact congrArg (ite _ _) ((hone input).symm.trans Option.or_none.symm)
  | joinTree i group nodes conditions scan =>
    cases scan with
    | none => exact congrArg (ite _ _) (Expr.findPlanInRows?_eq id _)
    | some scan =>
      exact congrArg (ite _ _) (congrArg₂ Option.or (hone scan).symm (Expr.findPlanInRows?_eq id _))
  | indexScan s => exact congrArg (ite _ _) (s.findPlan?_eq id)

/-- A search finds the first node that has the id. -/
theorem find?_eq (id : Int) (p : Plan) : p.find? id = p.nodes.find? fun q => q.id = id := by
  induction p using Plan.inductionOn with
  | h p ih =>
    have hbelow : p.plansBelow.findSome? (find? id) =
        p.plansBelow.findSome? fun q => q.nodes.find? fun r => r.id = id := by
      rw [← Function.id_comp (find? id), ← List.findSome?_map, List.map_congr_left ih, List.findSome?_map]
      rfl
    rw [find?_eq_ite, nodes_eq, List.find?_cons, List.find?_flatMap, hbelow]
    by_cases hid : p.id = id <;> simp only [hid, if_true, if_false, decide_true, decide_false]

/-- What is found is a node of the plan with the id that was asked for. -/
theorem mem_of_find? {id : Int} {p q : Plan} (h : p.find? id = some q) : q ∈ p.nodes ∧ q.id = id := by
  rw [find?_eq] at h
  exact ⟨List.mem_of_find?_eq_some h, by simpa using List.find?_some h⟩

/-- Something is found exactly for the ids of nodes. -/
theorem exists_find?_iff {id : Int} {p : Plan} : (∃ q, p.find? id = some q) ↔ id ∈ p.nodes.map Plan.id := by
  rw [← Option.isSome_iff_exists, find?_eq, List.find?_isSome, List.mem_map]
  simp only [decide_eq_true_eq]

/-- With different ids, every node is found by its id. -/
theorem DistinctIds.find?_id {p q : Plan} (h : p.DistinctIds) (hq : q ∈ p.nodes) : p.find? q.id = some q := by
  obtain ⟨r, hr⟩ := exists_find?_iff.2 (List.mem_map_of_mem hq)
  obtain ⟨hmem, hid⟩ := mem_of_find? hr
  rw [hr, h.eq_of_id_eq hmem hq hid]

end Plan

/-! ## Visiting -/

/-- The node that a call of a visitor comes to: an enter or a visit, but not a leave. -/
def WalkEvent.node? : WalkEvent → Option Plan
  | enter x _ | visit x _ => x.plan?
  | leave _ _ => none

/-- A walk that nothing holds up comes to the nodes of a subject in their order. -/
theorem Visitor.NeverPrunes.filterMap_node? {σ : Type} {v : Visitor σ} (hv : v.NeverPrunes) (x : Subject) (s : σ) :
    ((x.acceptDeep v.logged).run (s, [])).2.2.filterMap WalkEvent.node? = x.nodes := by
  refine hv.filterMap_eq ?_ ?_ x s
  · intro x b hx
    rw [Subject.nodes_eq, Subject.below_of_isLeaf hx]
    rcases x with p | e <;> rfl
  · intro x b c events hevents
    have haround : (.enter x b :: (events ++ [.leave x c])).filterMap WalkEvent.node? =
        x.plan?.toList ++ events.filterMap WalkEvent.node? := by
      rcases x with p | e <;> simp [List.filterMap_cons, WalkEvent.node?, Subject.plan?]
    rw [haround, hevents, Subject.nodes_eq]

end ClusterPlan
