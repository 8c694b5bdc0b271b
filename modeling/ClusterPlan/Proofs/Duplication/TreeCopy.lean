import ClusterPlan.Proofs.Duplication.Steps

/-!
# Copies of trees

A tree is copied with all its nodes in one step. Its nodes get the next references in the order of its list, so that a link
inside the tree is the reference at the same place of the copied list.
-/

namespace ClusterPlan.Duplication

variable {kind : EntityKind} {s₀ s : Duplication} {input : Context} {pending : List AnyRef}

/-! ## Links inside a tree -/

/-- The reference that a node at a place of the list gets. -/
theorem relink_of_getElem? {nodes : List NodeId} (hnodup : nodes.Nodup) {i : Nat} {n : NodeId} (hi : nodes[i]? = some n)
    (start : Nat) : relink nodes start n = ⟨start + i⟩ := by
  obtain ⟨hlt, hget⟩ := List.getElem?_eq_some_iff.1 hi
  have hfind : nodes.findIdx? (· == n) = some i := by
    rw [List.findIdx?_eq_some_iff_getElem]
    refine ⟨hlt, by simp [hget], ?_⟩
    intro j hj
    simp only [beq_iff_eq]
    intro heq
    exact absurd ((hnodup.getElem_inj_iff).1 (heq.trans hget.symm)) (Nat.ne_of_lt hj)
  rw [relink, hfind]

/-- The copied list holds the next references. -/
theorem map_relink {nodes : List NodeId} (hnodup : nodes.Nodup) (start : Nat) :
    nodes.map (relink nodes start) = (List.range nodes.length).map fun i => ⟨start + i⟩ := by
  refine List.ext_getElem (by simp) ?_
  intro i h h'
  have hi : i < nodes.length := by simpa using h
  rw [List.getElem_map, List.getElem_map, List.getElem_range]
  exact relink_of_getElem? hnodup (List.getElem?_eq_getElem hi) start

/-- A node of the list stands in the copied list at the same place. -/
theorem mem_zip_relink (nodes : List NodeId) (start : Nat) {n : NodeId} (hn : n ∈ nodes) :
    (n, relink nodes start n) ∈ nodes.zip (nodes.map (relink nodes start)) := by
  rw [List.zip_map_right, List.mem_map]
  refine ⟨(n, n), ?_, rfl⟩
  obtain ⟨i, hi, rfl⟩ := List.mem_iff_getElem.1 hn
  exact List.mem_iff_getElem.2 ⟨i, by simpa using hi, by simp⟩

/-- Beside each element of a list stands its image. -/
theorem eq_of_mem_zip_map {α β : Type} {f : α → β} {xs : List α} {a : α} {b : β} (h : (a, b) ∈ xs.zip (xs.map f)) :
    a ∈ xs ∧ b = f a := by
  obtain ⟨i, hi, heq⟩ := List.mem_iff_getElem.1 h
  rw [List.getElem_zip, List.getElem_map, Prod.mk.injEq] at heq
  obtain ⟨rfl, rfl⟩ := heq
  exact ⟨List.getElem_mem _, rfl⟩

/-! ## The step -/

/-- The copy of a tree whose nodes start at a given place. -/
def linkTree (nodes : List NodeId) (start : Nat) (t : TableTree) : TableTree :=
  { group := t.group, root := t.root.map (relink nodes start), nodes := t.nodes.map (relink nodes start) }

/-- The session after a tree was copied. -/
def enterTree (s : Duplication) (old : TreeId) (t : TableTree) : Duplication :=
  let link := relink t.nodes s.ctx.nodes.size
  let (new, trees) := s.ctx.trees.push (linkTree t.nodes s.ctx.nodes.size t)
  let nodes := t.nodes.foldl (fun (nodes : Arena .node TableNode) n =>
    (nodes.push (relinkNode new link (s.ctx.nodes.get n))).2) s.ctx.nodes
  { s with ctx := { s.ctx with trees, nodes }, trees := (old, new) :: s.trees }

/-- A tree is looked up, or copied with all its nodes at once. -/
theorem tree_eq (old : TreeId) (s : Duplication) :
    tree old s = match s.trees.lookup old with
      | some new => (new, s)
      | none => (⟨s.ctx.trees.size⟩, s.enterTree old (s.ctx.trees.get old)) := by
  unfold tree
  simp only [bind, StateT.bind, get, getThe, MonadStateOf.get, StateT.get, pure]
  cases s.trees.lookup old <;> rfl

section EnterTree

variable (s) (old : TreeId) (t : TableTree)

/-- The copies of the nodes of a tree. -/
def linkedNodes : List TableNode :=
  t.nodes.map fun n => relinkNode ⟨s.ctx.trees.size⟩ (relink t.nodes s.ctx.nodes.size) (s.ctx.nodes.get n)

/-- The copies of the nodes of a tree come behind all nodes, in the order of the tree. -/
theorem items_enterTree :
    (s.enterTree old t).ctx.nodes.items = s.ctx.nodes.items ++ (s.linkedNodes t).toArray := by
  have hfold : ∀ (f : NodeId → TableNode) (ns : List NodeId) (a : Arena .node TableNode),
      (ns.foldl (fun (nodes : Arena .node TableNode) n => (nodes.push (f n)).2) a).items = a.items ++ (ns.map f).toArray := by
    intro f ns a
    induction ns generalizing a with
    | nil => simp
    | cons n ns ih =>
      rw [List.foldl_cons, ih]
      simp [Arena.push]
  exact hfold _ _ _

/-- There are as many new nodes as the tree has. -/
theorem size_nodes_enterTree : ((s.enterTree old t).ctx.arena .node).size = (s.ctx.arena .node).size + t.nodes.length := by
  show (s.enterTree old t).ctx.nodes.items.size = s.ctx.nodes.items.size + t.nodes.length
  rw [items_enterTree]
  simp [linkedNodes]

/-- The new tree is the copied one with its nodes linked to their copies. -/
theorem record?_tree_enterTree_self :
    (s.enterTree old t).ctx.record? (⟨s.ctx.trees.size⟩ : TreeId) = some (linkTree t.nodes s.ctx.nodes.size t) :=
  Arena.get?_push_self s.ctx.trees _

/-- The copied node of a place in the list. -/
theorem record?_node_enterTree {i : Nat} {n : NodeId} (hi : t.nodes[i]? = some n) :
    (s.enterTree old t).ctx.record? (⟨s.ctx.nodes.size + i⟩ : NodeId) =
      some (relinkNode ⟨s.ctx.trees.size⟩ (relink t.nodes s.ctx.nodes.size) (s.ctx.nodes.get n)) := by
  show (s.enterTree old t).ctx.nodes.items[s.ctx.nodes.items.size + i]? = _
  rw [items_enterTree, Array.getElem?_append_right (Nat.le_add_right _ _)]
  simp [linkedNodes, hi]

/-- What was there before is kept. -/
theorem record?_enterTree_of_has {r : Ref kind} (hr : s.ctx.Has r) :
    (s.enterTree old t).ctx.record? r = s.ctx.record? r := by
  cases kind with
  | tree => exact Arena.get?_push_of_lt s.ctx.trees _ hr
  | node =>
    show (s.enterTree old t).ctx.nodes.items[r.index]? = s.ctx.nodes.items[r.index]?
    rw [items_enterTree]
    exact Array.getElem?_append_left hr
  | _ => rfl

/-- A tree is an old one or the copy. -/
theorem record?_tree_enterTree_cases {a : TreeId} {z : TableTree} (h : (s.enterTree old t).ctx.record? a = some z) :
    s.ctx.record? a = some z ∨ a = ⟨s.ctx.trees.size⟩ ∧ z = linkTree t.nodes s.ctx.nodes.size t := by
  by_cases hhas : s.ctx.Has a
  · rw [record?_enterTree_of_has s old t hhas] at h
    exact Or.inl h
  · have hlt : a.index < s.ctx.trees.size + 1 := by
      have := Context.has_of_record? h
      rwa [Context.Has, show ((s.enterTree old t).ctx.arena .tree).size = s.ctx.trees.size + 1 from
        Arena.size_push s.ctx.trees _] at this
    have heq : a = ⟨s.ctx.trees.size⟩ := by
      have hge : s.ctx.trees.size ≤ a.index := Nat.not_lt.1 hhas
      exact Ref.eq_of_index (Nat.le_antisymm (Nat.le_of_lt_succ hlt) hge)
    subst heq
    rw [record?_tree_enterTree_self] at h
    exact Or.inr ⟨rfl, (Option.some.inj h).symm⟩

/-- A node is an old one or the copy of a node of the tree. -/
theorem record?_node_enterTree_cases {a : NodeId} {z : TableNode} (h : (s.enterTree old t).ctx.record? a = some z) :
    s.ctx.record? a = some z ∨ ∃ (i : Nat) (n : NodeId), t.nodes[i]? = some n ∧ a = ⟨s.ctx.nodes.size + i⟩ ∧
      z = relinkNode ⟨s.ctx.trees.size⟩ (relink t.nodes s.ctx.nodes.size) (s.ctx.nodes.get n) := by
  by_cases hhas : s.ctx.Has a
  · rw [record?_enterTree_of_has s old t hhas] at h
    exact Or.inl h
  · have hlt := Context.has_of_record? h
    rw [Context.Has, size_nodes_enterTree] at hlt
    have hge : s.ctx.nodes.size ≤ a.index := Nat.not_lt.1 hhas
    have hi : a.index - s.ctx.nodes.size < t.nodes.length := by
      have hsize : (s.ctx.arena .node).size = s.ctx.nodes.size := rfl
      omega
    have heq : a = ⟨s.ctx.nodes.size + (a.index - s.ctx.nodes.size)⟩ :=
      Ref.eq_of_index (Nat.add_sub_cancel' hge).symm
    have hget := List.getElem?_eq_getElem hi
    refine Or.inr ⟨_, _, hget, heq, ?_⟩
    rw [heq, record?_node_enterTree s old t hget] at h
    exact (Option.some.inj h).symm

/-- Copying a tree enters copies of trees and nodes only. -/
theorem entries_enterTree_of_ne (ht : kind ≠ .tree) (hn : kind ≠ .node) :
    (s.enterTree old t).entries kind = s.entries kind := by
  cases kind <;> first | rfl | contradiction

end EnterTree

/-- The nodes of a tree get their copies with it. -/
theorem Noted.entries_node_enterTree (h : s.Noted) {old : TreeId} {t : TableTree} (ht : s.ctx.record? old = some t) :
    (s.enterTree old t).entries .node =
      t.nodes.zip (t.nodes.map (relink t.nodes s.ctx.nodes.size)) ++ s.entries .node := by
  have hget : ∀ {a : TreeId}, s.ctx.Has a → (s.enterTree old t).ctx.trees.get a = s.ctx.trees.get a := by
    intro a ha
    have := record?_enterTree_of_has s old t ha
    simp only [Context.record?, Context.arena] at this
    rw [Arena.get, this, Arena.get]
  have hself : (s.enterTree old t).ctx.trees.get ⟨s.ctx.trees.size⟩ = linkTree t.nodes s.ctx.nodes.size t :=
    Arena.get_of_get? _ (record?_tree_enterTree_self s old t)
  have hold : s.ctx.trees.get old = t := Arena.get_of_get? _ ht
  have hrest : ∀ a ∈ s.trees, ((s.enterTree old t).ctx.trees.get a.1).nodes.zip ((s.enterTree old t).ctx.trees.get a.2).nodes =
      (s.ctx.trees.get a.1).nodes.zip (s.ctx.trees.get a.2).nodes := by
    intro a ha
    obtain ⟨hold, hnew⟩ := @h .tree (by simp) a ha
    rw [hget hold, hget hnew]
  show List.flatMap _ ((old, ⟨s.ctx.trees.size⟩) :: s.trees) ++ s.looseNodes = _
  rw [List.flatMap_cons, hself, hget (Context.has_of_record? ht), hold, List.append_assoc]
  congr 1
  show _ = s.trees.flatMap _ ++ s.looseNodes
  congr 1
  exact List.flatMap_congr hrest

/-- Copying a tree forgets no copy. -/
theorem Noted.subset_entries_enterTree (h : s.Noted) {old : TreeId} {t : TableTree} (ht : s.ctx.record? old = some t)
    (kind : EntityKind) : s.entries kind ⊆ (s.enterTree old t).entries kind := by
  by_cases htree : kind = .tree
  · subst htree
    exact List.subset_cons_self _ _
  · by_cases hnode : kind = .node
    · subst hnode
      rw [h.entries_node_enterTree ht]
      exact List.subset_append_right _ _
    · rw [entries_enterTree_of_ne s old t htree hnode]
      exact List.Subset.refl _

/-- Copying a tree makes a later state. -/
theorem Noted.extends_enterTree (h : s.Noted) {old : TreeId} {t : TableTree} (ht : s.ctx.record? old = some t) :
    s.Extends (s.enterTree old t) := by
  refine ⟨h.subset_entries_enterTree ht, List.Subset.refl _, List.Subset.refl _, List.Subset.refl _, ?_, Int.le_refl _⟩
  intro kind r x hx
  exact ⟨x, (record?_enterTree_of_has s old t (Context.has_of_record? hx)).trans hx, rfl⟩

/-! ## The step keeps the invariant -/

/-- A link of a tree leads to the copy of a node. -/
theorem exists_relink {nodes : List NodeId} (hnodup : nodes.Nodup) (start : Nat) {n : NodeId} (hn : n ∈ nodes) :
    ∃ i, nodes[i]? = some n ∧ relink nodes start n = ⟨start + i⟩ := by
  obtain ⟨i, hi⟩ := List.getElem?_of_mem hn
  exact ⟨i, hi, relink_of_getElem? hnodup hi start⟩

section WellFormed

variable {old : TreeId} {t : TableTree} (hwf : s.ctx.WellFormed) (ht : s.ctx.record? old = some t)
include hwf ht

/-- The copy of a node of the tree. -/
theorem record?_relink_enterTree {n : NodeId} (hn : n ∈ t.nodes) :
    (s.enterTree old t).ctx.record? (relink t.nodes s.ctx.nodes.size n) =
      some (relinkNode ⟨s.ctx.trees.size⟩ (relink t.nodes s.ctx.nodes.size) (s.ctx.nodes.get n)) := by
  obtain ⟨i, hi, heq⟩ := exists_relink (hwf.shaped.distinct old t ht) s.ctx.nodes.size hn
  rw [heq, record?_node_enterTree s old t hi]

/-- The copy of each node of a tree is in the context. -/
theorem has_relink_enterTree {n : NodeId} (hn : n ∈ t.nodes) :
    (s.enterTree old t).ctx.Has (relink t.nodes s.ctx.nodes.size n) :=
  Context.has_of_record? (record?_relink_enterTree hwf ht hn)

/-- A copied tree and its copied nodes refer to each other. -/
theorem closed_enterTree : (s.enterTree old t).ctx.Closed := by
  intro kind r x hr hx ref href
  by_cases hr' : s.ctx.Has r
  · rw [record?_enterTree_of_has s old t hr'] at hx
    obtain ⟨y, hy⟩ := Context.exists_record? (hwf.closed r x hr' hx ref href)
    rw [← record?_enterTree_of_has s old t (Context.has_of_record? hy)] at hy
    exact Context.has_of_record? hy
  · cases kind with
    | tree =>
      rcases record?_tree_enterTree_cases s old t hx with hx | ⟨-, rfl⟩
      · exact absurd (Context.has_of_record? hx) hr'
      · simp only [EntityKind.references, linkTree, List.mem_map, List.mem_append, Option.mem_toList,
          Option.map_eq_some_iff] at href
        obtain ⟨_, ⟨n, hn, rfl⟩ | ⟨n, hn, rfl⟩, rfl⟩ := href
        · exact has_relink_enterTree hwf ht (hwf.shaped.root old t ht n hn)
        · exact has_relink_enterTree hwf ht hn
    | node =>
      rcases record?_node_enterTree_cases s old t hx with hx | ⟨i, n, hi, -, rfl⟩
      · exact absurd (Context.has_of_record? hx) hr'
      · have hn := List.mem_of_getElem? hi
        have hrecord := hwf.record?_get ht hn
        simp only [EntityKind.references, relinkNode, List.mem_cons, List.mem_append, List.mem_map, Option.mem_toList,
          Option.map_eq_some_iff, List.not_mem_nil, false_and, exists_false, or_false] at href
        rcases href with rfl | ⟨_, ⟨m, hm, rfl⟩ | ⟨m, hm, rfl⟩, rfl⟩
        · exact Context.has_of_record? (record?_tree_enterTree_self s old t)
        · exact has_relink_enterTree hwf ht (hwf.mem_nodes_of_kin ht hn hrecord (by simp [hm]))
        · exact has_relink_enterTree hwf ht (hwf.mem_nodes_of_kin ht hn hrecord (by simp [hm]))
    | _ => exact absurd hr hr'

/-- A copied tree and its copied nodes have the shape that the tree has. -/
theorem shaped_enterTree : (s.enterTree old t).ctx.Shaped := by
  have hdistinct := hwf.shaped.distinct old t ht
  constructor
  case listed =>
    intro n x a hx ha
    rcases record?_node_enterTree_cases s old t hx with hx | ⟨i, m, hi, rfl, rfl⟩
    · rw [record?_enterTree_of_has s old t (hwf.has_tree hx)] at ha
      exact hwf.shaped.listed n x a hx ha
    · rw [relinkNode, record?_tree_enterTree_self s old t] at ha
      cases ha
      rw [linkTree, ← relink_of_getElem? hdistinct hi]
      exact List.mem_map_of_mem (List.mem_of_getElem? hi)
  case own =>
    intro a z n y hz hn hy
    rcases record?_tree_enterTree_cases s old t hz with hz | ⟨rfl, rfl⟩
    · rw [record?_enterTree_of_has s old t (hwf.has_node hz hn)] at hy
      exact hwf.shaped.own a z n y hz hn hy
    · obtain ⟨m, hm, rfl⟩ := List.mem_map.1 hn
      rw [record?_relink_enterTree hwf ht hm] at hy
      cases hy
      rfl
  case distinct =>
    intro a z hz
    rcases record?_tree_enterTree_cases s old t hz with hz | ⟨-, rfl⟩
    · exact hwf.shaped.distinct a z hz
    · rw [linkTree, map_relink hdistinct]
      exact nodup_map_add _ _
  case root =>
    intro a z hz n hn
    rcases record?_tree_enterTree_cases s old t hz with hz | ⟨-, rfl⟩
    · exact hwf.shaped.root a z hz n hn
    · obtain ⟨m, hm, rfl⟩ := Option.map_eq_some_iff.1 hn
      exact List.mem_map_of_mem (hwf.shaped.root old t ht m hm)
  case kin =>
    intro n x hx m hm y hy
    rcases record?_node_enterTree_cases s old t hx with hx | ⟨i, n', hi, rfl, rfl⟩
    · rw [record?_enterTree_of_has s old t (hwf.has_of_kin hx hm)] at hy
      exact hwf.shaped.kin n x hx m hm y hy
    · have hn := List.mem_of_getElem? hi
      have hm' : ∃ m' ∈ (s.ctx.nodes.get n').parent.toList ++ (s.ctx.nodes.get n').children,
          relink t.nodes s.ctx.nodes.size m' = m := by
        simp only [relinkNode, List.mem_append, Option.mem_toList, Option.map_eq_some_iff, List.mem_map] at hm ⊢
        rcases hm with ⟨m', hm', rfl⟩ | ⟨m', hm', rfl⟩
        · exact ⟨m', Or.inl hm', rfl⟩
        · exact ⟨m', Or.inr hm', rfl⟩
      obtain ⟨m', hm', rfl⟩ := hm'
      rw [record?_relink_enterTree hwf ht (hwf.mem_nodes_of_kin ht hn (hwf.record?_get ht hn) hm')] at hy
      cases hy
      rfl

/-- The copy of a tree refers to its own nodes, and these to it and to each other. -/
theorem wellFormed_enterTree : (s.enterTree old t).ctx.WellFormed :=
  ⟨closed_enterTree hwf ht, shaped_enterTree hwf ht⟩

end WellFormed

/-- No node of a tree without a copy has one. -/
theorem Additive.not_copied_of_tree (h : Additive s₀ input s) {old : TreeId} {t : TableTree}
    (ht : s.ctx.record? old = some t) (hnew : old ∉ s.trees.map (·.1)) :
    ∀ n ∈ t.nodes, n ∉ (s.entries .node).map (·.1) := by
  intro n hn hmem
  obtain ⟨⟨m, m'⟩, hentry, heq⟩ := List.mem_map.1 hmem
  replace heq : m = n := heq
  subst heq
  rw [entries, h.noLoose, List.append_nil] at hentry
  obtain ⟨⟨a, a'⟩, ha, hzip⟩ := List.mem_flatMap.1 hentry
  have hc : s.Copies a a' := ha
  obtain ⟨ta, hta⟩ := Context.exists_record? (h.has_of_input (h.input_has_original hc))
  have hget : s.ctx.trees.get a = ta := Arena.get_of_get? _ hta
  obtain ⟨x, hx⟩ := Context.exists_record? (h.wellFormed.has_node ht hn)
  have hmem' : m ∈ ta.nodes := by
    rw [← hget]
    exact (List.of_mem_zip hzip).1
  have htree := (h.wellFormed.shaped.own a ta m x hta hmem' hx).symm.trans (h.wellFormed.shaped.own old t m x ht hn hx)
  rw [htree] at ha
  exact hnew (List.mem_map_of_mem ha)

/-- The entities that the current call started from hold references to each other only. -/
theorem Additive.input_has (h : Additive s₀ input s) (hin : input.Closed) {r : Ref kind} {x : kind.Record}
    (hr : input.Has r) (hx : s.ctx.record? r = some x) : ∀ ref ∈ kind.references (kind.bare x), input.Has ref.2 := by
  obtain ⟨y, hy⟩ := Context.exists_record? hr
  obtain ⟨z, hz, hzy⟩ := h.kept r y hy
  rw [hx] at hz
  cases hz
  rw [hzy]
  intro ref href
  exact hin r y hr hy ref (EntityKind.references_bare href)

/-- Copying a tree adds the tree and its nodes as copies, and nothing else. -/
theorem Additive.enterTree (h : Additive s₀ input s) (hin : input.Closed) {old : TreeId} {t : TableTree}
    (hold : input.Has old) (ht : s.ctx.record? old = some t) (hnew : old ∉ s.trees.map (·.1)) :
    Additive s₀ input (s.enterTree old t) := by
  have hnodup : t.nodes.Nodup := h.wellFormed.shaped.distinct old t ht
  refine ⟨wellFormed_enterTree h.wellFormed ht, ?_, h.kept.trans (h.noted.extends_enterTree ht).kept, ?_, h.noLoose,
    h.numbered.congr rfl rfl rfl rfl, h.joins⟩
  · intro kind r hr
    rw [record?_enterTree_of_has s old t (h.has_of_start hr)]
    exact h.frame r hr
  · intro kind
    by_cases htree : kind = .tree
    · subst htree
      have hsize : ((s.enterTree old t).ctx.arena .tree).size = (s.ctx.arena .tree).size + 1 := Arena.size_push s.ctx.trees _
      rw [hsize]
      exact (h.table .tree).cons hnew hold
    · by_cases hnode : kind = .node
      · subst hnode
        rw [h.noted.entries_node_enterTree ht, size_nodes_enterTree, map_relink hnodup]
        refine (h.table .node).append (h.not_copied_of_tree ht hnew) hnodup ?_
        intro n hn
        exact h.input_has hin hold ht ⟨.node, n⟩ (by simp [EntityKind.references, EntityKind.bare, hn])
      · rw [entries_enterTree_of_ne s old t htree hnode]
        have harena : (s.enterTree old t).ctx.arena kind = s.ctx.arena kind := by
          cases kind <;> first | rfl | contradiction
        rw [harena]
        exact h.table kind

/-! ## The copies are faithful -/

section Faithful

variable (h : Additive s₀ input s) {old : TreeId} {t : TableTree} (ht : s.ctx.record? old = some t)
include h ht

/-- Linking takes each node of the tree to its copy. -/
theorem Additive.copies_relink {n : NodeId} (hn : n ∈ t.nodes) :
    (s.enterTree old t).Copies n (relink t.nodes s.ctx.nodes.size n) := by
  rw [Copies, h.noted.entries_node_enterTree ht]
  exact List.mem_append_left _ (mem_zip_relink t.nodes s.ctx.nodes.size hn)

/-- Linking takes nodes of the tree, one by one, to their copies. -/
theorem Additive.forall₂_relink {ns : List NodeId} (hns : ∀ n ∈ ns, n ∈ t.nodes) :
    List.Forall₂ (s.enterTree old t).Copies ns (ns.map (relink t.nodes s.ctx.nodes.size)) := by
  rw [List.forall₂_map_right_iff, List.forall₂_same]
  intro n hn
  exact h.copies_relink ht (hns n hn)

/-- Linking takes a node of the tree, if there is one, to its copy. -/
theorem Additive.optionRel_relink {n : Option NodeId} (hn : ∀ m ∈ n, m ∈ t.nodes) :
    Option.Rel (s.enterTree old t).Copies n (n.map (relink t.nodes s.ctx.nodes.size)) := by
  cases n with
  | none => exact .none
  | some m => exact .some (h.copies_relink ht (hn m rfl))

/-- A copy that a tree brings is the copy of the tree or of one of its nodes. -/
theorem Additive.faithful_enterTree {a b : Ref kind} (hab : (s.enterTree old t).Copies a b) :
    s.Copies a b ∨ ¬s.ctx.Has b ∧ ∃ x y, (s.enterTree old t).ctx.record? a = some x ∧
      (s.enterTree old t).ctx.record? b = some y ∧ (s.enterTree old t).Faithful kind x y := by
  -- Only trees and nodes get new entries: one for the tree, and one for each of its nodes.
  by_cases htree : kind = .tree
  · subst htree
    rcases List.mem_cons.1 hab with heq | hab
    · cases heq
      refine Or.inr ⟨Nat.lt_irrefl _, t, _, ?_, record?_tree_enterTree_self s old t, rfl, ?_, ?_⟩
      · exact (record?_enterTree_of_has s old t (Context.has_of_record? ht)).trans ht
      · exact h.optionRel_relink ht (h.wellFormed.shaped.root old t ht)
      · exact h.forall₂_relink ht fun n hn => hn
    · exact Or.inl hab
  · by_cases hnode : kind = .node
    · subst hnode
      rw [Copies, h.noted.entries_node_enterTree ht] at hab
      rcases List.mem_append.1 hab with hab | hab
      · obtain ⟨hn, rfl⟩ := eq_of_mem_zip_map hab
        have hx := h.wellFormed.record?_get ht hn
        have hkin : ∀ m ∈ (s.ctx.nodes.get a).parent.toList ++ (s.ctx.nodes.get a).children, m ∈ t.nodes :=
          fun m hm => h.wellFormed.mem_nodes_of_kin ht hn hx hm
        have hnew : ¬s.ctx.Has (relink t.nodes s.ctx.nodes.size a) := by
          obtain ⟨i, -, heq⟩ := exists_relink (h.wellFormed.shaped.distinct old t ht) s.ctx.nodes.size hn
          rw [heq]
          exact Nat.not_lt.2 (Nat.le_add_right _ _)
        refine Or.inr ⟨hnew, s.ctx.nodes.get a, _, ?_, record?_relink_enterTree h.wellFormed ht hn, ?_, rfl, ?_, ?_⟩
        · exact (record?_enterTree_of_has s old t (Context.has_of_record? hx)).trans hx
        · rw [h.wellFormed.shaped.own old t a _ ht hn hx]
          exact List.mem_cons_self
        · refine h.optionRel_relink ht ?_
          intro m hm
          exact hkin m (List.mem_append_left _ (Option.mem_toList.2 hm))
        · refine h.forall₂_relink ht ?_
          intro m hm
          exact hkin m (List.mem_append_right _ hm)
      · exact Or.inl hab
    · rw [Copies, entries_enterTree_of_ne s old t htree hnode] at hab
      exact Or.inl hab

end Faithful

/-- A tree and its nodes get their copies. -/
theorem InSession.enterTree (h : InSession s₀ input pending s) (hin : input.Closed) {old : TreeId} {t : TableTree}
    (hold : input.Has old) (ht : s.ctx.record? old = some t) (hnew : old ∉ s.trees.map (·.1)) :
    InSession s₀ input pending (s.enterTree old t) := by
  have hext := h.noted.extends_enterTree ht
  refine
    { toAdditive := h.toAdditive.enterTree hin hold ht hnew
      pendingNodup := h.pendingNodup, pendingNew := ?pendingNew, faithful := ?faithful, uses := ?uses }
  case pendingNew =>
    intro ref href
    obtain ⟨href, o, ho⟩ := h.pendingNew ref href
    exact ⟨href, o, hext.copies ho⟩
  case faithful =>
    intro kind a b hab hpend
    rcases h.faithful_enterTree ht hab with hab | ⟨-, hfaithful⟩
    · obtain ⟨x, y, hx, hy, hf⟩ := h.faithful a b hab hpend
      refine ⟨x, y, ?_, ?_, hf.mono hext.entries hext.conditions⟩
      · exact (record?_enterTree_of_has s old t (Context.has_of_record? hx)).trans hx
      · exact (record?_enterTree_of_has s old t (Context.has_of_record? hy)).trans hy
    · exact hfaithful
  case uses =>
    intro a b y hab hy
    have hsources : ∀ {o r : SourceId}, (s.enterTree old t).Copies o r ↔ s.Copies o r := Iff.rfl
    have hrecord : ∀ r : SourceId, (s.enterTree old t).ctx.record? r = s.ctx.record? r := fun _ => rfl
    simp only [hsources, hrecord]
    rcases h.faithful_enterTree ht hab with hab | ⟨hnot, -⟩
    · rw [record?_enterTree_of_has s old t (h.has_copy hab)] at hy
      exact h.uses a b y hab hy
    -- A new node has no uses yet, and no source can refer to it.
    · rcases record?_node_enterTree_cases s old t hy with hy | ⟨i, n, -, -, rfl⟩
      · exact absurd (Context.has_of_record? hy) hnot
      · refine ⟨List.nodup_nil, ?_⟩
        intro r
        constructor
        · intro hr
          cases hr
        · rintro ⟨-, -, x, hx, rfl⟩
          exact absurd (h.wellFormed.closed r x (Context.has_of_record? hx) hx ⟨.node, x.node⟩
            (by simp [EntityKind.references])) hnot

end ClusterPlan.Duplication
