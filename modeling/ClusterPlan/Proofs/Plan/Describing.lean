import ClusterPlan.Plan.Description
import ClusterPlan.Proofs.Plan.Parents

/-!
# What a description says

The walk that describes a plan knows the parent of a node from the stack of the nodes that it is in, and finds the stack as it
was when it leaves a node (`DescriptionState.run_accept`). So the nodes are described in their order, with the parents that the
index of the plan has, and each description is found by its id (`describe_agrees`).
-/

namespace ClusterPlan

/-! ## Descriptions in their order -/

namespace Plan

/-- The description of a node with a parent: the details and the number of the operands, if there are any, and the ids of the
inputs in the order of their slots, if there are any. -/
def description (ctx : Context) (parent : Option Int) (p : Plan) : NodeDescription :=
  let details := if p.details ctx = "" then [] else [⟨"details", p.details ctx⟩]
  let operands := if p.exprs.length = 0 then [] else [⟨"expressions", toString p.exprs.length⟩]
  let inputs := p.children.map id
  { name := p.name
    id := p.id
    output := parent
    description := if (details ++ operands).isEmpty then none else some (details ++ operands)
    dependencies := if inputs.isEmpty then none else some inputs }

end Plan

/-- The descriptions of a plan below a parent. -/
def Subject.described (ctx : Context) : Subject → Option Int → List NodeDescription :=
  fold fun
    | plan p, below => fun parent => p.description ctx parent :: below.flatMap fun nodes => nodes (some p.id)
    | expr _, _ => fun _ => []

/-- The plans of subqueries are not described. -/
theorem Subject.described_expr (ctx : Context) (parent : Option Int) (e : Expr) : (expr e).described ctx parent = [] := by
  rw [described, fold_eq]

/-- The descriptions of the nodes of a plan below a parent, a node before its inputs. -/
def Plan.described (ctx : Context) (parent : Option Int) (p : Plan) : List NodeDescription :=
  (Subject.plan p).described ctx parent

/-- A plan is described before its inputs, to which it is the parent. -/
theorem Plan.described_eq (ctx : Context) (parent : Option Int) (p : Plan) :
    p.described ctx parent = p.description ctx parent :: p.children.flatMap (described ctx (some p.id)) := by
  have hbelow : ((Subject.plan p).below.flatMap fun x => x.described ctx (some p.id)) =
      p.children.flatMap (described ctx (some p.id)) :=
    Subject.flatMap_below_of_nil (fun e => Subject.described_expr ctx (some p.id) e) p
  rw [described, Subject.described, Subject.fold_eq]
  exact congrArg (_ :: ·) ((List.flatMap_map _ _ _).trans hbelow)

namespace DescriptionState

variable {ctx : Context}

/-- Describes a plan below the innermost node of the walk. -/
def append (ctx : Context) (s : DescriptionState) (p : Plan) : DescriptionState :=
  { s with nodes := s.nodes ++ p.described ctx s.stack.head? }

/-- Appending plans one after the other appends their descriptions one after the other. -/
theorem foldl_append (ps : List Plan) (s : DescriptionState) :
    ps.foldl (append ctx) s = { s with nodes := s.nodes ++ ps.flatMap (Plan.described ctx s.stack.head?) } := by
  induction ps generalizing s with
  | nil => simp
  | cons p ps ih =>
    rw [List.foldl_cons, ih]
    simp only [append, List.flatMap_cons, List.append_assoc]

/-- A walk through a plan describes its nodes and leaves the stack as it was. -/
theorem run_accept (p : Plan) (s : DescriptionState) : (p.accept (visitor ctx)).run s = (true, s.append ctx p) := by
  induction p using Plan.inductionOn generalizing s with
  | h p ih =>
    have hleads : p.accept (visitor ctx) = if (Subject.plan p).isLeaf then (visitor ctx).visit p else
        (visitor ctx).aroundOf (.plan p) (series (p.children.map fun c => c.accept (visitor ctx))) := by
      have hinputs : (Subject.plan p).inputs.map (Subject.accept (visitor ctx)) =
        p.children.map fun c => c.accept (visitor ctx) := List.map_map
      rw [← hinputs]
      exact leads_accept (visitor ctx) (.plan p)
    have hchildren (s : DescriptionState) := run_series (fun c hc s => ih c (p.children_subset_plansBelow hc) s) s
    rw [hleads, append, Plan.described_eq]
    by_cases hleaf : (Subject.plan p).isLeaf
    · have hnone : p.children = [] := by
        have hbelow := Subject.below_of_isLeaf hleaf
        exact List.map_eq_nil_iff.1 (List.append_eq_nil_iff.1 hbelow).1
      rw [if_pos hleaf, hnone]
      rfl
    · have hentered (s : DescriptionState) : ((visitor ctx).enterOf (.plan p)).run s =
          (true, { nodes := s.nodes ++ [p.description ctx s.stack.head?], stack := p.id :: s.stack }) := rfl
      have hleft (s : DescriptionState) : ((visitor ctx).leaveOf (.plan p)).run s =
          (true, { s with stack := s.stack.tail }) := rfl
      rw [if_neg hleaf, Visitor.run_aroundOf, hentered, if_pos rfl, hchildren, hleft, foldl_append]
      simp only [List.append_assoc, List.singleton_append, List.tail_cons, List.head?_cons]

end DescriptionState

/-! ## Places -/

namespace PlanDescription

/-- A place that is noted for an id takes the place of an earlier one for the same id. -/
theorem lookup_insertPlace (id other : Int) (place : Nat) (places : List (Int × Nat)) :
    (insertPlace id place places).lookup other = if other = id then some place else places.lookup other := by
  induction places with
  | nil => rw [insertPlace, Duplication.lookup_cons_eq_ite]
  | cons entry places ih =>
    rw [insertPlace, Duplication.lookup_cons_eq_ite]
    by_cases hentry : entry.1 = id
    · rw [if_pos hentry, Duplication.lookup_cons_eq_ite, hentry]
      split <;> rfl
    · rw [if_neg hentry, Duplication.lookup_cons_eq_ite, ih]
      by_cases h : other = entry.1
      · have hother : ¬other = id := fun heq => hentry (h.symm.trans heq)
        rw [if_pos h, if_neg hother, if_pos h]
      · rw [if_neg h, if_neg h]

/-- Every node is found at its place. -/
def Indexed (d : PlanDescription) : Prop := ∀ i n, d.nodes[i]? = some n → d.places.lookup n.id = some i

/-- A node with a new id is found where it was put. -/
theorem Indexed.add {d : PlanDescription} (h : d.Indexed) {n : NodeDescription} (hnew : n.id ∉ d.nodes.map (·.id)) :
    (d.add n).Indexed := by
  intro i m hm
  have hplace : (d.add n).places.lookup m.id = if m.id = n.id then some d.nodes.length else d.places.lookup m.id :=
    lookup_insertPlace n.id m.id d.nodes.length d.places
  have hm' : (d.nodes ++ [n])[i]? = some m := hm
  rw [hplace]
  by_cases hi : i < d.nodes.length
  · rw [List.getElem?_append_left hi] at hm'
    have hne : ¬m.id = n.id := fun heq => hnew (heq ▸ List.mem_map_of_mem (List.mem_of_getElem? hm'))
    rw [if_neg hne, h i m hm']
  · rw [List.getElem?_append_right (Nat.not_lt.1 hi), List.getElem?_singleton] at hm'
    obtain ⟨hzero, hmn⟩ := Option.ite_none_right_eq_some.1 hm'
    rw [← Option.some.inj hmn, if_pos rfl, Nat.le_antisymm (Nat.not_lt.1 hi) (Nat.le_of_sub_eq_zero hzero)]

theorem nodes_add (d : PlanDescription) (n : NodeDescription) : (d.add n).nodes = d.nodes ++ [n] := rfl

/-- Nodes that are added come behind those that are there, in their order. -/
theorem nodes_foldl_add (nodes : List NodeDescription) (d : PlanDescription) :
    (nodes.foldl PlanDescription.add d).nodes = d.nodes ++ nodes := by
  induction nodes generalizing d with
  | nil => exact (List.append_nil d.nodes).symm
  | cons n nodes ih => rw [List.foldl_cons, ih, nodes_add, List.append_assoc, List.singleton_append]

/-- Nodes with different new ids are found where they were put. -/
theorem Indexed.foldl_add {nodes : List NodeDescription} {d : PlanDescription} (h : d.Indexed)
    (hnodup : ((d.nodes ++ nodes).map (·.id)).Nodup) : (nodes.foldl PlanDescription.add d).Indexed := by
  induction nodes generalizing d with
  | nil => exact h
  | cons n nodes ih =>
    have hnodes : (d.add n).nodes ++ nodes = d.nodes ++ n :: nodes := List.append_assoc _ [n] nodes
    have hnew : n.id ∉ d.nodes.map (·.id) := by
      intro hmem
      rw [List.map_append] at hnodup
      exact (List.nodup_append.1 hnodup).2.2 _ hmem _ List.mem_cons_self rfl
    exact ih (h.add hnew) (hnodes ▸ hnodup)

/-- Each described node is found by its id. -/
theorem Indexed.find?_id {d : PlanDescription} (h : d.Indexed) {n : NodeDescription} (hn : n ∈ d.nodes) :
    d.find? n.id = some n := by
  obtain ⟨i, hi⟩ := List.mem_iff_getElem?.1 hn
  rw [find?, h i n hi, Option.bind_some, hi]

end PlanDescription

/-! ## Descriptions and the parent index -/

namespace Plan

/-- The inputs of a node come in their order among the nodes of a plan. -/
theorem children_sublist_preorder {p q : Plan} (h : q ∈ p.preorder) : q.children.Sublist p.preorder := by
  induction p using Plan.inductionOn with
  | h p ih =>
    rw [preorder_eq] at h ⊢
    refine List.Sublist.cons p ?_
    rcases List.mem_cons.1 h with rfl | h
    · have hroots : (q.children.flatMap fun c => [c]).Sublist (q.children.flatMap preorder) := by
        refine List.Sublist.flatMap_right _ fun c _ => List.singleton_sublist.2 ?_
        rw [preorder_eq]
        exact List.mem_cons_self
      rwa [List.flatMap_singleton'] at hroots
    · obtain ⟨c, hc, hq⟩ := List.mem_flatMap.1 h
      have hpart : c.preorder.Sublist (p.children.flatMap preorder) :=
        List.sublist_flatten_of_mem (List.mem_map_of_mem hc)
      exact (ih c (p.children_subset_plansBelow hc) hq).trans hpart

/-- Below a parent that the index of a plan has, a part of the plan is described with the parents that the index has. -/
theorem DistinctIds.described_eq {root p : Plan} (h : root.DistinctIds) (hp : p ∈ root.nodes) (ctx : Context) :
    p.described ctx ((ParentIndex.ofPlan root).parentOf? p.id) =
      p.preorder.map fun q => q.description ctx ((ParentIndex.ofPlan root).parentOf? q.id) := by
  induction p using Plan.inductionOn with
  | h p ih =>
    rw [Plan.described_eq, preorder_eq, List.map_cons, List.map_flatMap]
    refine congrArg (_ :: ·) (List.flatMap_congr fun c hc => ?_)
    have hparent : (ParentIndex.ofPlan root).parentOf? c.id = some p.id :=
      h.parentOf?_eq_some_iff.2 ⟨p, hp, rfl, c, hc, rfl⟩
    have hbelow := p.children_subset_plansBelow hc
    rw [← hparent]
    exact ih c hbelow (nodes_subset hp (mem_nodes_iff.2 (Or.inr ⟨c, hbelow, c.self_mem_nodes⟩)))

/-- A part of a list of different elements is what is left of the list if all others are taken out. -/
theorem filter_eq_of_sublist {α : Type} {l part : List α} {P : α → Bool} (hpart : part.Sublist l) (hl : l.Nodup)
    (hP : ∀ x ∈ l, P x = true ↔ x ∈ part) : l.filter P = part := by
  induction hpart with
  | slnil => rfl
  | @cons part l a hpart ih =>
    obtain ⟨ha, hl⟩ := List.nodup_cons.1 hl
    obtain ⟨hPa, hP⟩ := List.forall_mem_cons.1 hP
    rw [List.filter_cons_of_neg fun h => ha (hpart.subset (hPa.1 h)), ih hl hP]
  | @cons_cons part l a hpart ih =>
    obtain ⟨ha, hl⟩ := List.nodup_cons.1 hl
    obtain ⟨hPa, hP⟩ := List.forall_mem_cons.1 hP
    rw [List.filter_cons_of_pos (hPa.2 List.mem_cons_self)]
    refine congrArg (a :: ·) (ih hl fun x hx => (hP x hx).trans ?_)
    have hne : x ≠ a := fun heq => ha (heq ▸ hx)
    rw [List.mem_cons, or_iff_right hne]

/-- The nodes that have a node as their parent are its inputs, in the order of their slots. -/
theorem DistinctIds.filter_parentOf? {p q : Plan} (h : p.DistinctIds) (hq : q ∈ p.preorder) :
    (p.preorder.map id).filter (fun x => (ParentIndex.ofPlan p).parentOf? x = some q.id) = q.children.map id := by
  have hnodes : ∀ r ∈ p.preorder, r ∈ p.nodes := fun r hr => p.preorder_sublist.subset hr
  have hnodup : (p.preorder.map id).Nodup := List.Nodup.sublist (p.preorder_sublist.map id) h
  have hchildren : (q.children.map id).Sublist (p.preorder.map id) := (children_sublist_preorder hq).map id
  have hiff (x : Int) : (ParentIndex.ofPlan p).parentOf? x = some q.id ↔ x ∈ q.children.map id := by
    rw [h.parentOf?_eq_some_iff, List.mem_map]
    constructor
    · rintro ⟨r, hr, hid, c, hc, rfl⟩
      obtain rfl := h.eq_of_id_eq hr (hnodes q hq) hid
      exact ⟨c, hc, rfl⟩
    · rintro ⟨c, hc, rfl⟩
      exact ⟨q, hnodes q hq, rfl, c, hc, rfl⟩
  exact filter_eq_of_sublist hchildren hnodup fun x _ => decide_eq_true_iff.trans (hiff x)

/-- The nodes of a plan are described in their order, with the parents that its index has, and each at its place. -/
theorem DistinctIds.nodes_describe {p : Plan} (h : p.DistinctIds) (ctx : Context) :
    (p.describe ctx).nodes = p.preorder.map (fun q => q.description ctx ((ParentIndex.ofPlan p).parentOf? q.id)) ∧
      (p.describe ctx).Indexed := by
  have hwalk : p.describe ctx = (p.described ctx none).foldl PlanDescription.add {} := by
    rw [describe, DescriptionState.run_accept]
    rfl
  have hdescribed := h.described_eq p.self_mem_nodes ctx
  rw [h.parentOf?_root] at hdescribed
  have hids : (p.described ctx none).map (fun n => n.id) = p.preorder.map id := by
    rw [hdescribed, List.map_map]
    rfl
  have hnodup : ((p.described ctx none).map fun n => n.id).Nodup := by
    rw [hids]
    exact List.Nodup.sublist (p.preorder_sublist.map id) h
  have hempty : PlanDescription.Indexed {} := fun _ _ hn => nomatch hn
  have hnodes := PlanDescription.nodes_foldl_add (p.described ctx none) {}
  have hindexed := hempty.foldl_add hnodup
  rw [hwalk, ← hdescribed]
  exact ⟨hnodes, hindexed⟩

end Plan

/-- The description of any plan whose nodes have different ids: the nodes of the plan without its subqueries in their order,
each with the parent that the index of the plan has; there are as many as the plan counts. Each of them is found by its id. Its
dependencies are the nodes that have it as their parent, which are its inputs in the order of their slots, and there are none
if there are no such nodes. -/
theorem describe_agrees (ctx : Context) (p : Plan) (h : p.DistinctIds) :
    (p.describe ctx).nodes = p.preorder.map (fun q => q.description ctx ((ParentIndex.ofPlan p).parentOf? q.id)) ∧
    (p.describe ctx).nodes.length = p.nodeCount ∧
    ∀ q ∈ p.preorder, ∃ n, (p.describe ctx).find? q.id = some n ∧ n.id = q.id ∧
      n.output = (ParentIndex.ofPlan p).parentOf? q.id ∧
      ((p.describe ctx).nodes.filter fun m => m.output = some q.id).map (fun m => m.id) = q.children.map Plan.id ∧
      n.dependencies = if q.children = [] then none else some (q.children.map Plan.id) := by
  obtain ⟨hnodes, hindexed⟩ := h.nodes_describe ctx
  refine ⟨hnodes, ?_, fun q hq => ⟨q.description ctx ((ParentIndex.ofPlan p).parentOf? q.id), ?_, rfl, rfl, ?_, ?_⟩⟩
  · rw [hnodes, List.length_map, p.length_preorder]
  · exact hindexed.find?_id (hnodes ▸ List.mem_map_of_mem hq)
  · have hfilter := h.filter_parentOf? hq
    rw [List.filter_map] at hfilter
    rw [hnodes, List.filter_map, List.map_map]
    exact hfilter
  · cases hchildren : q.children with
    | nil => simp [Plan.description, hchildren]
    | cons c children => simp [Plan.description, hchildren]

open ComparedSubquery in
/-- The description of a selection that compares with a subquery has the selection and its input only. -/
theorem describe_compared_subquery :
    plan.DistinctIds ∧ ((plan.describe {}).nodes.map fun n => (n.id, n.output)) = [(2, none), (1, some 2)] ∧
      ∃ n, (plan.describe {}).find? 2 = some n ∧ n.dependencies = some [1] := by
  have hdistinct : plan.DistinctIds := by
    rw [Plan.DistinctIds]
    decide
  obtain ⟨hnodes, -, hall⟩ := describe_agrees {} plan hdistinct
  have hplan : plan ∈ plan.preorder := plan.preorder_eq ▸ List.mem_cons_self
  obtain ⟨n, hn, -, -, -, hdependencies⟩ := hall plan hplan
  rw [hnodes, List.map_map]
  exact ⟨hdistinct, rfl, n, hn, hdependencies⟩

end ClusterPlan
