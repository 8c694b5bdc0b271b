import ClusterPlan.Proofs.Plan.JoinTrees

/-!
# The leaves of join trees

A search for leaves starts at the root, passes over the nodes that are not accepted with all that is below them, and takes the
accepted nodes without an accepted child. It takes each of them once, in the order of the walk through the whole tree
(`leaves_of_isJoinTree`), since the leaves below a node lie in the piece of the walk behind it (`Forest.flatMap_leavesFrom`).
-/

namespace ClusterPlan

open Relation Duplication

namespace JoinTree

variable {nodes : List JoinTreeNode} {accepts : Nat → Bool} {i j : Nat}

/-- A node that is accepted with all nodes above it and has no accepted child. -/
structure IsLeaf (nodes : List JoinTreeNode) (accepts : Nat → Bool) (i : Nat) : Prop where
  reached : ∀ j, ReflTransGen (IsChild nodes) j i → accepts j = true
  last : ∀ j, IsChild nodes i j → accepts j = false

/-- The places of the leaves among all nodes. -/
structure Leaves (nodes : List JoinTreeNode) (accepts : Nat → Bool) (places : List Nat) : Prop where
  /-- They stand in the order of the walk. -/
  ordered : places.Sublist (preorder nodes)
  once : places.Nodup
  mem_iff : ∀ i, i ∈ places ↔ i < nodes.length ∧ IsLeaf nodes accepts i
  /-- There is none exactly if the root is not accepted. -/
  empty_iff : places = [] ↔ accepts 0 = false
  /-- There is none at or below a node that is not accepted. -/
  pruned : ∀ i j, accepts i = false → ReflTransGen (IsChild nodes) i j → j ∉ places

/-- The walk visits the root with all that is below it. -/
theorem Linked.forest_preorder (h : Linked nodes) : Forest nodes [0] (preorder nodes) := by
  obtain ⟨l, hl⟩ := h.exists_forest [0] (List.forall_mem_singleton.2 (List.length_pos_iff.2 h.nonempty))
  have hwalk : Traversal nodes [0] l := by simpa using hl.traversal .stop
  have hsame : preorder nodes = l :=
    (h.ordered.walk.walkFrom (Nat.le_max_left _ l.length)).symm.trans (hwalk.walkFrom (Nat.le_max_right _ _))
  exact hsame ▸ hl

/-- A node that is reached is a leaf exactly if none of its children is accepted. -/
theorem Linked.isLeaf_iff (h : Linked nodes) (hreached : ∀ j, ReflTransGen (IsChild nodes) j i → accepts j = true) :
    IsLeaf nodes accepts i ↔ (JoinTree.childrenOf nodes i).filter accepts = [] := by
  rw [h.childrenOf, List.filter_eq_nil_iff]
  simp only [mem_added, Bool.not_eq_true]
  exact ⟨IsLeaf.last, fun hlast => ⟨hreached, hlast⟩⟩

open Classical in
/-- Below some nodes the leaves are found in the order of the walk. Children stand behind their parents, so that the depth is
not used up. -/
theorem Forest.flatMap_leavesFrom {is l : List Nat} (h : Forest nodes is l) (hlinked : Linked nodes) {depth : Nat}
    (hdepth : ∀ i ∈ is, i < nodes.length ∧ nodes.length ≤ i + depth)
    (habove : ∀ i ∈ is, ∀ j, TransGen (IsChild nodes) j i → accepts j = true) :
    (is.filter accepts).flatMap (leavesFrom nodes accepts depth) = l.filter (IsLeaf nodes accepts ·) := by
  induction h generalizing depth with
  | nil => rfl
  | @cons i is below rest hbelow hrest ihbelow ihrest =>
    obtain ⟨⟨hi, hlong⟩, hdepth⟩ := List.forall_mem_cons.1 hdepth
    obtain ⟨hiabove, habove⟩ := List.forall_mem_cons.1 habove
    rw [List.filter_append, ← ihrest hdepth habove]
    -- A rejected node ends its branch on the left; on the right no node below it is a leaf, as it is not reached.
    by_cases haccepted : accepts i
    · obtain ⟨depth, rfl⟩ : ∃ d, depth = d + 1 := ⟨depth - 1, by omega⟩
      have hreached : ∀ j, ReflTransGen (IsChild nodes) j i → accepts j = true := by
        intro j hj
        rcases reflTransGen_iff_eq_or_transGen.1 hj with rfl | hj
        · exact haccepted
        · exact hiabove j hj
      have hchild : ∀ c ∈ childrenOf nodes i, IsChild nodes i c := fun c hc => mem_added.1 (hlinked.childrenOf i ▸ hc)
      have hchildren : ((childrenOf nodes i).filter accepts).flatMap (leavesFrom nodes accepts depth) =
          below.filter (IsLeaf nodes accepts ·) := by
        refine ihbelow (fun c hc => ?_) fun c hc j hj => ?_
        · have hlt := hlinked.lt_of_isChild (hchild c hc)
          exact ⟨lt_length_of_isChild (hchild c hc), by omega⟩
        · obtain ⟨p, hjp, hp⟩ := TransGen.tail'_iff.1 hj
          obtain rfl : p = i := Option.some.inj (hp.symm.trans (hchild c hc))
          exact hreached j hjp
      rw [List.filter_cons_of_pos haccepted, List.flatMap_cons, leavesFrom, List.filter_cons, ← hchildren]
      simp only [decide_eq_true_eq, hlinked.isLeaf_iff hreached]
      cases (childrenOf nodes i).filter accepts with
      | nil => rfl
      | cons c children => rw [if_neg (List.cons_ne_nil c children)]
    · have hnone : (i :: below).filter (IsLeaf nodes accepts ·) = [] := by
        rw [List.filter_eq_nil_iff]
        intro j hj hleaf
        refine haccepted ((of_decide_eq_true hleaf).reached i ?_)
        rcases List.mem_cons.1 hj with rfl | hj
        · exact .refl
        · obtain ⟨c, hc, hcj⟩ := (hbelow.mem_iff hlinked j).1 hj
          exact .head (mem_added.1 (hlinked.childrenOf i ▸ hc)) hcj
      rw [List.filter_cons_of_neg haccepted, hnone, List.nil_append]

open Classical in
/-- The leaves are found in the order of the walk through the tree. -/
theorem Linked.leafPlaces_eq (h : Linked nodes) (accepts : Nat → Bool) :
    leafPlaces nodes accepts = (preorder nodes).filter (IsLeaf nodes accepts ·) := by
  have hroot : 0 < nodes.length := List.length_pos_iff.2 h.nonempty
  have habove : ∀ j, TransGen (IsChild nodes) j 0 → accepts j = true := by
    intro j hj
    obtain ⟨p, -, hp⟩ := TransGen.tail'_iff.1 hj
    exact absurd (h.lt_of_isChild hp) (Nat.not_lt_zero p)
  rw [← h.forest_preorder.flatMap_leavesFrom h (List.forall_mem_singleton.2 ⟨hroot, Nat.le_add_left _ 0⟩)
    (List.forall_mem_singleton.2 habove), leafPlaces]
  cases hzero : accepts 0 <;> simp [hzero]

/-- Below an accepted node there is a leaf, or it is one itself. -/
theorem Linked.leavesFrom_ne_nil (h : Linked nodes) {depth : Nat} (hi : i < nodes.length) (hdepth : nodes.length ≤ i + depth) :
    leavesFrom nodes accepts depth i ≠ [] := by
  induction depth generalizing i with
  | zero => omega
  | succ depth ih =>
    rw [leavesFrom]
    cases hchildren : (JoinTree.childrenOf nodes i).filter accepts with
    | nil => exact List.cons_ne_nil _ _
    | cons c children =>
      have hc : c ∈ JoinTree.childrenOf nodes i := List.mem_of_mem_filter (hchildren ▸ List.mem_cons_self)
      rw [h.childrenOf] at hc
      have hc := mem_added.1 hc
      have hlt := h.lt_of_isChild hc
      refine List.append_ne_nil_of_left_ne_nil ?_ (children.flatMap (leavesFrom nodes accepts depth))
      exact ih (lt_length_of_isChild hc) (by omega)

/-- In every tree the search finds the leaves. -/
theorem Linked.leaves (h : Linked nodes) (accepts : Nat → Bool) : Leaves nodes accepts (leafPlaces nodes accepts) := by
  classical
  have hordered : (leafPlaces nodes accepts).Sublist (preorder nodes) := h.leafPlaces_eq accepts ▸ List.filter_sublist
  have hmem : ∀ i, i ∈ leafPlaces nodes accepts ↔ i < nodes.length ∧ IsLeaf nodes accepts i := by
    intro i
    rw [h.leafPlaces_eq, List.mem_filter, decide_eq_true_eq, h.ordered.once.mem_iff, List.mem_range]
  refine ⟨hordered, hordered.nodup (h.ordered.once.nodup_iff.2 List.nodup_range), hmem, ?_, ?_⟩
  · rw [leafPlaces]
    cases accepts 0 with
    | true =>
      have hne : leavesFrom nodes accepts nodes.length 0 ≠ [] :=
        h.leavesFrom_ne_nil (List.length_pos_iff.2 h.nonempty) (Nat.le_add_left _ 0)
      simp [hne]
    | false => simp
  · intro i j hrejected hij hj
    rw [((hmem j).1 hj).2.reached i hij] at hrejected
    cases hrejected

/-! ## Conditions of nodes -/

/-- A tree grows by one node at a time. -/
theorem length_addChild (nodes : List JoinTreeNode) (parent : Nat) (table : SourceId) (kind : JoinKind) :
    (addChild nodes parent table kind).length = nodes.length + 1 := by
  rw [addChild]
  split <;> rw [List.length_modify, List.length_append, List.length_singleton]

/-- The copy of a join tree has as many nodes and lists of conditions. -/
theorem length_copyJoinTree : ∀ (nodes : List JoinTreeNode) (rows : List (List Expr)) (s : Duplication),
    rows.length = nodes.length →
      (Expr.copyJoinTree nodes rows s).1.1.length = nodes.length ∧ (Expr.copyJoinTree nodes rows s).1.2.length = nodes.length
  | [], [], _, _ => by
    rw [Expr.copyJoinTree, Expr.copyRows]
    exact ⟨rfl, rfl⟩
  | n :: nodes, row :: rows, s, h => by
    rw [Expr.copyJoinTree]
    exact (length_copyJoinTree nodes rows (Expr.copyAll row (source n.table s).2).2 (Nat.succ.inj h)).imp
      (congrArg Nat.succ) (congrArg Nat.succ)

end JoinTree

namespace Plan

/-- The conditions of the nodes of a join tree. -/
def treeConditions : Plan → List (List Expr)
  | joinTree _ _ _ conditions _ => conditions
  | _ => []

/-- The nodes of a join tree, each with its conditions. -/
def treeEntries (p : Plan) : List (JoinTreeNode × List Expr) := p.treeNodes.zip p.treeConditions

/-- Each node of a join tree has its conditions. -/
theorem IsJoinTree.length_conditions {p : Plan} (h : p.IsJoinTree) : p.treeConditions.length = p.treeNodes.length := by
  induction h with
  | ofRoot id group root => rfl
  | @addChild p parent table kind _ _ ih =>
    cases p with
    | joinTree id group nodes conditions scan =>
      have hlength := JoinTree.length_addChild nodes parent table kind
      exact List.length_append.trans ((congrArg (· + 1) ih).trans hlength.symm)
    | _ => rfl
  | @copy p s hp ih =>
    cases p with
    | joinTree id group nodes conditions scan =>
      obtain ⟨hnodes, hrows⟩ := JoinTree.length_copyJoinTree nodes conditions s ih
      rw [Plan.copy]
      cases scan <;> exact hrows.trans hnodes.symm
    | _ => exact absurd rfl hp.linked.nonempty
  | @setState p i state _ ih | @setKind p i kind _ ih =>
    cases p with
    | joinTree => exact ih.trans (List.length_modify ..).symm
    | _ => exact ih
  | @addCondition p i e _ ih =>
    cases p with
    | joinTree => exact (List.length_modify ..).trans ih
    | _ => exact ih
  | @setScan p scan _ ih => cases p <;> exact ih

/-- Each node of a join tree has its conditions beside it. -/
theorem IsJoinTree.length_entries {p : Plan} (h : p.IsJoinTree) : p.treeEntries.length = p.treeNodes.length := by
  rw [treeEntries, List.length_zip, h.length_conditions, Nat.min_self]

/-- The leaves of a join tree are the values of the places that are leaves. -/
theorem IsJoinTree.treeLeaves_eq {p : Plan} (h : p.IsJoinTree) {α : Type} (accept : JoinTreeNode × List Expr → Bool)
    (value : JoinTreeNode × List Expr → α) :
    p.treeLeaves accept value =
      (JoinTree.leafPlaces p.treeNodes fun i => (p.treeEntries[i]?).any accept).filterMap fun i =>
        p.treeEntries[i]?.map value := by
  cases p with
  | joinTree => rfl
  | _ => exact absurd rfl h.linked.nonempty

end Plan

/-- Where the conditions do not matter it is enough to be told of the nodes. -/
theorem Plan.IsJoinTree.leaves_eq_treeLeaves {p : Plan} (h : p.IsJoinTree) {α : Type} (accept : JoinTreeNode → Bool)
    (value : JoinTreeNode → α) :
    JoinTree.leaves p.treeNodes accept value = p.treeLeaves (fun entry => accept entry.1) fun entry => value entry.1 := by
  have hnodes : p.treeEntries.map Prod.fst = p.treeNodes := List.map_fst_zip (Nat.le_of_eq h.length_conditions.symm)
  rw [h.treeLeaves_eq, JoinTree.leaves, JoinTree.leavesOf]
  simp only [← hnodes, List.getElem?_map, Option.any_map, Option.map_map]
  rfl

/-- If there is an image for each element, the images stand beside the elements. -/
theorem forall₂_filterMap {α β : Type} {f : α → Option β} {l : List α} (h : ∀ a ∈ l, (f a).isSome) :
    List.Forall₂ (fun a b => f a = some b) l (l.filterMap f) := by
  induction l with
  | nil => exact .nil
  | cons a l ih =>
    obtain ⟨ha, hl⟩ := List.forall_mem_cons.1 h
    obtain ⟨b, hb⟩ := Option.isSome_iff_exists.1 ha
    rw [List.filterMap_cons_some hb]
    exact .cons hb (ih hl)

/-- In every join tree, however it was built up and copied, the leaves are the nodes that are accepted with all nodes above them
and have no accepted child, each once and in the order of the walk. Their values are found, none exactly if the root is not
accepted, and none for a node below one that is not accepted. -/
theorem leaves_of_isJoinTree {p : Plan} (h : p.IsJoinTree) {α : Type} (accept : JoinTreeNode × List Expr → Bool)
    (value : JoinTreeNode × List Expr → α) :
    ∃ places, JoinTree.Leaves p.treeNodes (fun i => (p.treeEntries[i]?).any accept) places ∧
      List.Forall₂ (fun i x => ∃ entry, p.treeEntries[i]? = some entry ∧ value entry = x) places (p.treeLeaves accept value) ∧
      (p.treeLeaves accept value = [] ↔ (p.treeEntries[0]?).any accept = false) := by
  have hplaces := h.linked.leaves fun i => (p.treeEntries[i]?).any accept
  have hvalues := forall₂_filterMap (f := fun i => p.treeEntries[i]?.map value) fun i hi => by
    have hlt := ((hplaces.mem_iff i).1 hi).1
    rw [← h.length_entries] at hlt
    rw [Option.isSome_map, List.getElem?_eq_getElem hlt, Option.isSome_some]
  rw [← h.treeLeaves_eq] at hvalues
  refine ⟨_, hplaces, hvalues.imp fun i x hx => Option.map_eq_some_iff.1 hx, ?_⟩
  rw [← hplaces.empty_iff, ← List.length_eq_zero_iff, ← hvalues.length_eq, List.length_eq_zero_iff]

namespace OrdersTree

/-- The planned tree is a join tree. -/
theorem isJoinTree_planned : planned.IsJoinTree :=
  (((Plan.IsJoinTree.ofRoot 1 ⟨0⟩ ⟨0⟩).addChild ⟨1⟩ .inner (by decide)).addChild ⟨2⟩ .left (by decide)).addChild ⟨3⟩ .inner
    (by decide)

/-- Everything but the items of the orders. -/
def noItems (entry : JoinTreeNode × List Expr) : Bool := entry.1.table != ⟨3⟩

end OrdersTree

open OrdersTree in
/-- The items of the orders stand before the addresses. Where they are not accepted the orders are a leaf. -/
theorem leaves_of_orders_tree :
    planned.IsJoinTree ∧ planned.treeLeaves (fun _ => true) (·.1.table) = [⟨3⟩, ⟨2⟩] ∧
      planned.treeLeaves noItems (·.1.table) = [⟨1⟩, ⟨2⟩] ∧
      ∃ places, JoinTree.Leaves planned.treeNodes (fun i => (planned.treeEntries[i]?).any noItems) places ∧
        List.Forall₂ (fun i x => ∃ entry, planned.treeEntries[i]? = some entry ∧ entry.1.table = x) places [⟨1⟩, ⟨2⟩] := by
  have hleaves : planned.treeLeaves noItems (·.1.table) = [⟨1⟩, ⟨2⟩] := by rfl
  obtain ⟨places, hplaces, hvalues, -⟩ := leaves_of_isJoinTree isJoinTree_planned noItems (·.1.table)
  exact ⟨isJoinTree_planned, by rfl, hleaves, places, hplaces, hleaves ▸ hvalues⟩

end ClusterPlan
