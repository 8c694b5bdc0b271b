import ClusterPlan.Plan.ParentIndex
import ClusterPlan.Proofs.Duplication.Tables
import ClusterPlan.Proofs.Plan.Nodes

/-!
# What the parent index says

The entries of an index are the root and, for each node of a plan and of its subqueries, its inputs with the node as their
parent and the roots of its subqueries with no parent (`Plan.mem_parents_iff`). If the nodes have different ids, no entry takes
the place of another one, and the index, the search by id and the walk through a plan tell of the same nodes
(`parentIndex_agrees`).
-/

namespace ClusterPlan

/-! ## Entries -/

namespace Expr

mutual

/-- The nodes in an expression are those of its subqueries, whose roots have no parents. -/
theorem parents_eq : ∀ e : Expr, e.parents = e.subqueries.flatMap (Plan.parents none)
  | .constant _ _ | .parameter _ _ | .column _ | .aggregate _ none => rfl
  | .cast operand _ => operand.parents_eq
  | .call _ operands | .logical _ operands | .special _ operands => parentsIn_eq operands
  | .aggregate _ (some operand) => operand.parents_eq
  | .comparison _ left right => (congrArg₂ List.append left.parents_eq right.parents_eq).trans List.flatMap_append.symm
  | .inList operand list => (congrArg₂ List.append operand.parents_eq (parentsIn_eq list)).trans List.flatMap_append.symm
  | .subquery _ _ _ => (List.flatMap_singleton _ _).symm

/-- The nodes in a list of expressions are those of their subqueries. -/
theorem parentsIn_eq : ∀ es : List Expr, parentsIn es = (subqueriesOf es).flatMap (Plan.parents none)
  | [] => rfl
  | e :: es => (congrArg₂ List.append e.parents_eq (parentsIn_eq es)).trans List.flatMap_append.symm

end

/-- The nodes in lists of expressions are those of their subqueries. -/
theorem parentsInRows_eq (rows : List (List Expr)) :
    parentsInRows rows = (subqueriesOf rows.flatten).flatMap (Plan.parents none) := by
  induction rows with
  | nil => rfl
  | cons row rows ih =>
    rw [List.flatten_cons, subqueriesOf_append, List.flatMap_append, ← ih, ← parentsIn_eq]
    rfl

end Expr

/-- The nodes in a scan are those of the subqueries in its comparands. -/
theorem Scan.parents_eq (s : Scan) : s.parents = (Expr.subqueriesOf s.comparands).flatMap (Plan.parents none) := by
  induction s using Scan.inductionOn with
  | single head s =>
    obtain ⟨_, _, _, _, equality, unions, low, high⟩ := s
    have hbound (bound : Option (Bound Expr)) : (bound.map (·.comparand.parents)).getD [] =
        (Expr.subqueriesOf (bound.map (·.comparand)).toList).flatMap (Plan.parents none) := by
      cases bound with
      | none => rfl
      | some bound => exact bound.comparand.parents_eq.trans (congrArg (List.flatMap _) (List.append_nil _).symm)
    rw [comparands, SingleScan.comparands, Expr.subqueriesOf_append, Expr.subqueriesOf_append, Expr.subqueriesOf_append,
      List.flatMap_append, List.flatMap_append, List.flatMap_append, ← Expr.parentsIn_eq, ← Expr.parentsInRows_eq, ← hbound,
      ← hbound]
    cases low <;> cases high <;> rfl
  | intersect _ _ output selector houtput hselector =>
    rw [comparands, Expr.subqueriesOf_append, List.flatMap_append, ← houtput, ← hselector]
    rfl

namespace Plan

/-- The plans right below a node, each with its parent: the node for its inputs, and none for the roots of subqueries. -/
def arcs (p : Plan) : List (Plan × Option Int) :=
  p.children.map (fun c => (c, some p.id)) ++ p.subqueries.map fun r => (r, none)

/-- Each of the plans right below a node has its arc. -/
theorem map_fst_arcs (p : Plan) : p.arcs.map Prod.fst = p.plansBelow := by
  simp only [arcs, plansBelow, List.map_append, List.map_map, Function.comp_def, List.map_id']

/-- An arc leads to a plan right below the node. -/
theorem fst_mem_of_mem_arcs {p : Plan} {a : Plan × Option Int} (h : a ∈ p.arcs) : a.1 ∈ p.plansBelow :=
  map_fst_arcs p ▸ List.mem_map_of_mem h

/-- A node comes before the entries of the plans right below it. -/
theorem parents_eq (parent : Option Int) (p : Plan) :
    p.parents parent = (p.id, parent) :: p.arcs.flatMap fun a => a.1.parents a.2 := by
  have harcs : (p.arcs.flatMap fun a => a.1.parents a.2) =
      p.children.flatMap (parents (some p.id)) ++ p.subqueries.flatMap (parents none) := by
    rw [arcs, List.flatMap_append, List.flatMap_map, List.flatMap_map]
  rw [harcs]
  cases p with
  | leaf i op => rfl
  | probe i op operands => exact congrArg (_ :: ·) (Expr.parentsIn_eq _)
  | values i rows => exact congrArg (_ :: ·) (Expr.parentsInRows_eq _)
  | unary i op input operands =>
    rw [children, List.flatMap_singleton]
    exact congrArg (_ :: _ ++ ·) (Expr.parentsIn_eq _)
  | binary i op left right operands =>
    rw [children, List.flatMap_cons, List.flatMap_singleton]
    exact congrArg (_ :: _ ++ ·) (Expr.parentsIn_eq _)
  | aggregate i op phase input =>
    rw [children, List.flatMap_singleton]
    cases phase with
    | bare groupBy => exact congrArg (_ :: _ ++ ·) (Expr.parentsIn_eq _)
    | resolved groupBy aggregates =>
      have hphase : Expr.parentsIn groupBy ++ Expr.parentsIn aggregates =
          (Expr.subqueriesOf (groupBy ++ aggregates)).flatMap (parents none) := by
        rw [Expr.parentsIn_eq, Expr.parentsIn_eq, ← List.flatMap_append, ← Expr.subqueriesOf_append]
      exact congrArg (_ :: _ ++ ·) hphase
    | split info => rfl
  | tableJoins i group input scans =>
    rw [children, List.flatMap_singleton]
    exact congrArg (_ :: ·) (List.append_nil _).symm
  | joinTree i group nodes conditions scan =>
    cases scan with
    | none => exact congrArg (_ :: ·) (Expr.parentsInRows_eq _)
    | some scan =>
      rw [children, Option.toList_some, List.flatMap_singleton]
      exact congrArg (_ :: _ ++ ·) (Expr.parentsInRows_eq _)
  | indexScan s => exact congrArg (_ :: ·) s.parents_eq

/-- There is one entry for each node. -/
theorem map_fst_parents (parent : Option Int) (p : Plan) : (p.parents parent).map Prod.fst = p.nodes.map id := by
  induction p using Plan.inductionOn generalizing parent with
  | h p ih =>
    rw [parents_eq, nodes_eq, List.map_cons, List.map_cons, List.map_flatMap, List.map_flatMap, ← map_fst_arcs,
      List.flatMap_map]
    exact congrArg (_ :: ·) (List.flatMap_congr fun a ha => ih a.1 (fst_mem_of_mem_arcs ha) a.2)

/-- The entries are the root and all that lies right below some node. -/
theorem mem_parents_iff {parent : Option Int} {p : Plan} {entry : Int × Option Int} :
    entry ∈ p.parents parent ↔ entry = (p.id, parent) ∨ ∃ q ∈ p.nodes, ∃ a ∈ q.arcs, entry = (a.1.id, a.2) := by
  induction p using Plan.inductionOn generalizing parent with
  | h p ih =>
    rw [parents_eq, List.mem_cons, List.mem_flatMap]
    refine or_congr_right ⟨?_, ?_⟩
    · rintro ⟨a, ha, hentry⟩
      rcases (ih a.1 (fst_mem_of_mem_arcs ha)).1 hentry with hroot | ⟨q, hq, hbelow⟩
      · exact ⟨p, self_mem_nodes p, a, ha, hroot⟩
      · exact ⟨q, mem_nodes_iff.2 (Or.inr ⟨a.1, fst_mem_of_mem_arcs ha, hq⟩), hbelow⟩
    · rintro ⟨q, hq, hentry⟩
      rcases mem_nodes_iff.1 hq with rfl | ⟨r, hr, hq⟩
      · obtain ⟨a, ha, hroot⟩ := hentry
        exact ⟨a, ha, (ih a.1 (fst_mem_of_mem_arcs ha)).2 (Or.inl hroot)⟩
      · rw [← map_fst_arcs] at hr
        obtain ⟨a, ha, rfl⟩ := List.mem_map.1 hr
        exact ⟨a, ha, (ih a.1 (fst_mem_of_mem_arcs ha)).2 (Or.inr ⟨q, hq, hentry⟩)⟩

end Plan

/-! ## The index -/

namespace ParentIndex

/-- Entries of different ids that are not in an index yet stay as they are. -/
theorem entries_foldl_insert (entries : List (Int × Option Int)) (x : ParentIndex)
    (h : ((entries.reverse ++ x.entries).map Prod.fst).Nodup) :
    (entries.foldl (fun x (id, parent) => x.insert id parent) x).entries = entries.reverse ++ x.entries := by
  induction entries generalizing x with
  | nil => rfl
  | cons entry entries ih =>
    rw [List.reverse_cons, List.append_assoc, List.singleton_append] at h
    have hnew : (entry :: x.entries).map Prod.fst |>.Nodup :=
      h.sublist ((List.sublist_append_right _ _).map Prod.fst)
    have hkeep : (x.entries.filter fun other => other.1 != entry.1) = x.entries := by
      refine List.filter_eq_self.2 fun other hother => bne_iff_ne.2 fun heq => ?_
      exact (List.nodup_cons.1 hnew).1 (heq ▸ List.mem_map_of_mem hother)
    have hinsert : (x.insert entry.1 entry.2).entries = entry :: x.entries := congrArg (entry :: ·) hkeep
    rw [List.foldl_cons, ih _ (hinsert ▸ h), hinsert, List.reverse_cons, List.append_assoc, List.singleton_append]

/-- An index contains the ids that it has entries for. -/
theorem contains_iff (x : ParentIndex) (id : Int) : x.contains id ↔ id ∈ x.entries.map Prod.fst := by
  rw [contains, List.any_eq_true, List.mem_map]
  simp only [beq_iff_eq]

end ParentIndex

namespace Plan.DistinctIds

variable {p : Plan} (h : p.DistinctIds)
include h

/-- In a plan with distinct ids each node is listed with its parent once. -/
theorem nodup_parents : ((p.parents none).map Prod.fst).Nodup := by
  rw [map_fst_parents]
  exact h

/-- The index has the nodes with their parents, the last ones first. -/
theorem entries_ofPlan : (ParentIndex.ofPlan p).entries = (p.parents none).reverse := by
  have hnodup : (((p.parents none).reverse ++ []).map Prod.fst).Nodup := by
    rw [List.append_nil, List.map_reverse, List.nodup_reverse]
    exact h.nodup_parents
  have hentries := ParentIndex.entries_foldl_insert (p.parents none) {} hnodup
  rwa [List.append_nil] at hentries

/-- The index contains the ids of the nodes of the plan and of its subqueries. -/
theorem contains_ofPlan_iff (id : Int) : (ParentIndex.ofPlan p).contains id ↔ id ∈ p.nodes.map Plan.id := by
  rw [ParentIndex.contains_iff, h.entries_ofPlan, List.map_reverse, List.mem_reverse, map_fst_parents]

/-- The parent that a node is listed with is the one that the index finds. -/
theorem parentOf?_of_mem {id : Int} {parent : Option Int} (hentry : (id, parent) ∈ p.parents none) :
    (ParentIndex.ofPlan p).parentOf? id = parent := by
  have hlookup : (p.parents none).reverse.lookup id = some parent := by
    refine Duplication.lookup_of_mem ?_ (List.mem_reverse.2 hentry)
    rw [List.map_reverse, List.nodup_reverse]
    exact h.nodup_parents
  rw [ParentIndex.parentOf?, h.entries_ofPlan, hlookup, Option.join_some]

/-- The parent of a node is the node that has it as an input. -/
theorem parentOf?_eq_some_iff {x y : Int} :
    (ParentIndex.ofPlan p).parentOf? x = some y ↔ ∃ q ∈ p.nodes, q.id = y ∧ ∃ c ∈ q.children, c.id = x := by
  constructor
  · intro hparent
    have hentry : (x, some y) ∈ p.parents none := by
      rw [ParentIndex.parentOf?, Option.join_eq_some_iff, h.entries_ofPlan] at hparent
      exact List.mem_reverse.1 (Duplication.mem_of_lookup hparent)
    rcases mem_parents_iff.1 hentry with hroot | ⟨q, hq, a, ha, hbelow⟩
    · cases hroot
    · rcases List.mem_append.1 ha with ha | ha
      · obtain ⟨c, hc, rfl⟩ := List.mem_map.1 ha
        cases hbelow
        exact ⟨q, hq, rfl, c, hc, rfl⟩
      · obtain ⟨r, -, rfl⟩ := List.mem_map.1 ha
        cases hbelow
  · rintro ⟨q, hq, rfl, c, hc, rfl⟩
    have harc : (c, some q.id) ∈ q.arcs := List.mem_append_left _ (List.mem_map_of_mem hc)
    exact h.parentOf?_of_mem (mem_parents_iff.2 (Or.inr ⟨q, hq, _, harc, rfl⟩))

/-- The root of a plan has no parent. -/
theorem parentOf?_root : (ParentIndex.ofPlan p).parentOf? p.id = none :=
  h.parentOf?_of_mem (mem_parents_iff.2 (Or.inl rfl))

/-- The root of a subquery has no parent. -/
theorem parentOf?_subquery {q r : Plan} (hq : q ∈ p.nodes) (hr : r ∈ q.subqueries) :
    (ParentIndex.ofPlan p).parentOf? r.id = none := by
  have harc : (r, none) ∈ q.arcs := List.mem_append_right _ (List.mem_map_of_mem hr)
  exact h.parentOf?_of_mem (mem_parents_iff.2 (Or.inr ⟨q, hq, _, harc, rfl⟩))

end Plan.DistinctIds

/-- The index of any plan whose nodes have different ids, however it was built and edited: the parent of a node is the node
that has it as an input, somewhere in the plan or in a subquery at any depth; the root and the roots of all subqueries have
none; and the index knows an id if a search finds a node of it, which it does if a walk that nothing holds up comes to one. -/
theorem parentIndex_agrees (p : Plan) (h : p.DistinctIds) :
    (∀ x y, (ParentIndex.ofPlan p).parentOf? x = some y ↔ ∃ q ∈ p.nodes, q.id = y ∧ ∃ c ∈ q.children, c.id = x) ∧
    (ParentIndex.ofPlan p).parentOf? p.id = none ∧
    (∀ q ∈ p.nodes, ∀ r ∈ q.subqueries, (ParentIndex.ofPlan p).parentOf? r.id = none) ∧
    (∀ x, (ParentIndex.ofPlan p).contains x ↔ ∃ q, p.find? x = some q) ∧
    ∀ {σ : Type} (v : Visitor σ), v.NeverPrunes → ∀ (s : σ) (x : Int), (∃ q, p.find? x = some q) ↔
      ∃ q ∈ ((p.acceptDeep v.logged).run (s, [])).2.2.filterMap WalkEvent.node?, q.id = x := by
  refine ⟨fun x y => h.parentOf?_eq_some_iff, h.parentOf?_root, fun q hq r hr => h.parentOf?_subquery hq hr, ?_, ?_⟩
  · intro x
    rw [h.contains_ofPlan_iff, Plan.exists_find?_iff]
  · intro σ v hv s x
    have hvisited : ((p.acceptDeep v.logged).run (s, [])).2.2.filterMap WalkEvent.node? = p.nodes :=
      hv.filterMap_node? (.plan p) s
    rw [hvisited, Plan.exists_find?_iff, List.mem_map]

open ComparedSubquery in
/-- The input of a selection has the selection as its parent; the subquery that the selection compares with has none, but the
index knows it. -/
theorem parentIndex_of_compared_subquery :
    plan.DistinctIds ∧ (ParentIndex.ofPlan plan).parentOf? 1 = some 2 ∧ (ParentIndex.ofPlan plan).parentOf? 2 = none ∧
      (ParentIndex.ofPlan plan).parentOf? 3 = none ∧ (ParentIndex.ofPlan plan).contains 3 ∧
      ¬(ParentIndex.ofPlan plan).contains 4 := by
  have hdistinct : plan.DistinctIds := by
    rw [Plan.DistinctIds]
    decide
  obtain ⟨hparent, hroot, hsubquery, hcontains, -⟩ := parentIndex_agrees plan hdistinct
  have hself : plan ∈ plan.nodes := plan.self_mem_nodes
  refine ⟨hdistinct, (hparent 1 2).2 ⟨plan, hself, rfl, _, List.mem_singleton_self _, rfl⟩, hroot,
    hsubquery plan hself _ (List.mem_singleton_self _), (hcontains 3).2 ⟨_, rfl⟩, fun h => ?_⟩
  obtain ⟨q, hq⟩ := (hcontains 4).1 h
  cases hq

end ClusterPlan
