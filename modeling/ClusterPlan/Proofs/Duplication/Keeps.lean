import ClusterPlan.Proofs.Duplication.TreeCopy

/-!
# What calls keep

A call of a session keeps what holds during the session, and its answer is a copy of what it was given (`Keeps`). Here are the
calls that take no fuel: those for trees and nodes, and those for numbers.
-/

namespace ClusterPlan.Duplication

variable {s₀ s s' : Duplication} {input : Context} {pending : List AnyRef} {α β : Type}

/-- An action keeps a property of the session, and its answer is as told. -/
def Keeps (I : Duplication → Prop) (action : Copying α) (answer : Duplication → α → Prop) : Prop :=
  ∀ s, I s → I (action s).2 ∧ s.Extends (action s).2 ∧ answer (action s).2 (action s).1

section Keeps

variable {I : Duplication → Prop} {R : Duplication → α → β → Prop} {f : α → Copying β}

/-- An answer that is ready keeps everything. -/
protected theorem Keeps.pure (x : α) : Keeps I (pure x) fun _ y => y = x :=
  fun s hs => ⟨hs, .refl s, rfl⟩

/-- One action after the other. What is told of the first answer has to hold in later states as well. -/
theorem Keeps.andThen {action : Copying α} {next : α → Copying β} {answer : Duplication → α → Prop}
    {answer' : α → Duplication → β → Prop} (h : Keeps I action answer)
    (hmono : ∀ s s' x, s.Extends s' → answer s x → answer s' x) (h' : ∀ x, Keeps I (next x) (answer' x)) :
    Keeps I (action >>= next) fun s y => ∃ x, answer s x ∧ answer' x s y := by
  intro s hs
  obtain ⟨hs₁, hext₁, ha⟩ := h s hs
  obtain ⟨hs₂, hext₂, ha'⟩ := h' (action s).1 _ hs₁
  exact ⟨hs₂, hext₁.trans hext₂, _, hmono _ _ _ hext₂ ha, ha'⟩

/-- Less can be told of the answer. -/
theorem Keeps.mono {action : Copying α} {answer answer' : Duplication → α → Prop} (h : Keeps I action answer)
    (hanswer : ∀ s x, answer s x → answer' s x) : Keeps I action answer' :=
  fun s hs => (h s hs).imp_right (And.imp_right (hanswer _ _))

/-- An action for each element of a list. What it says of an element has to hold in later states as well. -/
theorem Keeps.mapM (hR : ∀ s s' a b, s.Extends s' → R s a b → R s' a b) {xs : List α}
    (h : ∀ x ∈ xs, Keeps I (f x) fun s y => R s x y) : Keeps I (xs.mapM f) fun s ys => List.Forall₂ (R s) xs ys := by
  induction xs with
  | nil =>
    intro s hs
    rw [List.mapM_nil]
    exact ⟨hs, .refl s, .nil⟩
  | cons x xs ih =>
    intro s hs
    obtain ⟨hs₁, hext₁, hx⟩ := h x (by simp) s hs
    obtain ⟨hs₂, hext₂, hxs⟩ := ih (fun x' hx' => h x' (List.mem_cons_of_mem x hx')) _ hs₁
    rw [List.mapM_cons]
    exact ⟨hs₂, hext₁.trans hext₂, .cons (hR _ _ _ _ hext₂ hx) hxs⟩

/-- An action for a value that may be missing. -/
theorem Keeps.mapM_option {x : Option α} (h : ∀ a ∈ x, Keeps I (f a) fun s b => R s a b) :
    Keeps I (x.mapM f) fun s y => Option.Rel (R s) x y := by
  intro s hs
  cases x with
  | none => exact ⟨hs, .refl s, .none⟩
  | some a =>
    obtain ⟨hs₁, hext, ha⟩ := h a rfl s hs
    exact ⟨hs₁, hext, .some ha⟩

end Keeps

/-! ## Trees and nodes -/

/-- The call for a tree keeps the session in order and answers with the copy. -/
theorem keeps_tree (hin : input.Closed) {old : TreeId} (hold : input.Has old) :
    Keeps (InSession s₀ input pending) (tree old) fun s new => s.Copies old new := by
  intro s h
  rw [tree_eq]
  cases hl : s.trees.lookup old with
  | some new => exact ⟨h, .refl s, mem_of_lookup hl⟩
  | none =>
    obtain ⟨t, ht⟩ := Context.exists_record? (h.has_of_input hold)
    have hget : s.ctx.trees.get old = t := Arena.get_of_get? _ ht
    dsimp only
    rw [hget]
    exact ⟨h.enterTree hin hold ht (not_mem_keys_of_lookup hl), h.noted.extends_enterTree ht, List.mem_cons_self⟩

/-- The copy of a node stands in the list of the copied tree where the node stands in the list of its tree. -/
theorem InSession.copies_node (h : InSession s₀ input pending s) {old : NodeId} {oldTree newTree : TreeId} {t : TableTree}
    (hc : s.Copies oldTree newTree) (ht : s.ctx.record? oldTree = some t) (hn : old ∈ t.nodes) :
    ∃ i new, t.position? old = some i ∧ (s.ctx.trees.get newTree).nodes[i]? = some new ∧ s.Copies old new := by
  obtain ⟨i, hi⟩ : ∃ i, t.position? old = some i := by
    rw [← Option.isSome_iff_exists, TableTree.position?, List.findIdx?_isSome, List.any_eq_true]
    exact ⟨old, hn, by simp⟩
  obtain ⟨hlt, hget, -⟩ := List.findIdx?_eq_some_iff_getElem.1 hi
  have hpend : (⟨.tree, newTree⟩ : AnyRef) ∉ pending := by
    intro hmem
    exact (h.pendingNew _ hmem).1.1 rfl
  obtain ⟨t₁, t', ht₁, ht', -, -, hnodes⟩ := h.faithful oldTree newTree hc hpend
  rw [ht] at ht₁
  cases ht₁
  have hlt' : i < t'.nodes.length := by
    rw [← hnodes.length_eq]
    exact hlt
  have hold : s.ctx.trees.get oldTree = t := Arena.get_of_get? _ ht
  have hnew : s.ctx.trees.get newTree = t' := Arena.get_of_get? _ ht'
  refine ⟨i, t'.nodes[i], hi, by rw [hnew, List.getElem?_eq_getElem hlt'], ?_⟩
  refine List.mem_append_left _ (List.mem_flatMap.2 ⟨(oldTree, newTree), hc, ?_⟩)
  dsimp only
  rw [hold, hnew]
  refine List.mem_iff_getElem.2 ⟨i, by rw [List.length_zip]; omega, ?_⟩
  rw [List.getElem_zip]
  exact Prod.ext (by simpa using hget) rfl

/-- A node is copied with its tree: the answer stands at the place of the node there. -/
theorem node_eq (old : NodeId) (s : Duplication) :
    node old s =
      let oldTree := (s.ctx.nodes.get old).tree
      let newTree := (tree oldTree s).1
      let s := (tree oldTree s).2
      match (s.ctx.trees.get oldTree).position? old with
      | some i => (((s.ctx.trees.get newTree).nodes[i]?).getD old, s)
      | none =>
        match s.looseNodes.lookup old with
        | some new => (new, s)
        | none => (⟨s.ctx.nodes.size⟩,
          { s with
            ctx := { s.ctx with nodes := (s.ctx.nodes.push { tree := newTree, table := (s.ctx.nodes.get old).table }).2 },
            looseNodes := (old, ⟨s.ctx.nodes.size⟩) :: s.looseNodes }) := by
  unfold node
  simp only [bind, StateT.bind, get, getThe, MonadStateOf.get, StateT.get, pure]
  generalize tree (s.ctx.nodes.get old).tree s = r
  obtain ⟨newTree, s₁⟩ := r
  dsimp only
  cases (s₁.ctx.trees.get (s.ctx.nodes.get old).tree).position? old with
  | some i => rfl
  | none => cases s₁.looseNodes.lookup old <;> rfl

/-- A node is copied with its tree and found in the copied list. -/
theorem InSession.node_found (h : InSession s₀ input pending s) (hin : input.Closed) {old : NodeId} {x : TableNode}
    (hold : input.Has old) (hx : s.ctx.record? old = some x) :
    input.Has x.tree ∧ ∃ new, node old s = (new, (tree x.tree s).2) ∧ (tree x.tree s).2.Copies old new := by
  have hget : s.ctx.nodes.get old = x := Arena.get_of_get? _ hx
  have htree : input.Has x.tree :=
    h.input_has hin hold hx ⟨.tree, x.tree⟩ (by simp [EntityKind.references, EntityKind.bare])
  refine ⟨htree, ?_⟩
  obtain ⟨h₁, hext, hc⟩ := keeps_tree hin htree s h
  obtain ⟨t, ht⟩ := Context.exists_record? (h₁.has_of_input htree)
  have hgett : (tree x.tree s).2.ctx.trees.get x.tree = t := Arena.get_of_get? _ ht
  have hn : old ∈ t.nodes := by
    obtain ⟨x₁, hx₁, hbare⟩ := hext.kept old x hx
    have htree₁ : x₁.tree = x.tree := by
      simp only [EntityKind.bare, TableNode.mk.injEq] at hbare
      exact hbare.1
    exact h₁.wellFormed.shaped.listed old x₁ t hx₁ (by rwa [htree₁])
  obtain ⟨i, new, hi, hnew, hcopy⟩ := h₁.copies_node hc ht hn
  rw [node_eq]
  dsimp only
  rw [hget, hgett, hi]
  dsimp only
  rw [hnew]
  exact ⟨new, rfl, hcopy⟩

/-- The call for a node keeps the session in order and answers with the copy. -/
theorem keeps_node (hin : input.Closed) {old : NodeId} (hold : input.Has old) :
    Keeps (InSession s₀ input pending) (node old) fun s new => s.Copies old new := by
  intro s h
  obtain ⟨x, hx⟩ := Context.exists_record? (h.has_of_input hold)
  obtain ⟨htree, new, heq, hcopy⟩ := h.node_found hin hold hx
  obtain ⟨h₁, hext, -⟩ := keeps_tree hin htree s h
  rw [heq]
  exact ⟨h₁, hext, hcopy⟩

/-! ## Numbers -/

/-- The session with other numbers. The entities and their copies stay. -/
def renumber (s : Duplication) (next : Int) (planNodes : List (Int × Int)) (used : List Int)
    (conditions : List (ConditionId × ConditionId)) : Duplication :=
  { s with supply := ⟨next⟩, planNodes, used, conditions }

/-- A condition is looked up, or gets the next number. -/
theorem condition_eq (old : ConditionId) (s : Duplication) :
    condition old s = match s.conditions.lookup old with
      | some new => (new, s)
      | none =>
        (⟨s.supply.next⟩, s.renumber (s.supply.next + 1) s.planNodes s.used ((old, ⟨s.supply.next⟩) :: s.conditions)) := by
  unfold condition
  simp only [bind, StateT.bind, get, getThe, MonadStateOf.get, StateT.get, pure]
  cases s.conditions.lookup old <;> rfl

/-- The number in the place of a plan node is looked up, or drawn and noted. -/
theorem nodeNumber_eq (old : Int) (s : Duplication) :
    nodeNumber old s = match s.planNodes.lookup old with
      | some new => (new, s)
      | none =>
        (s.supply.next, s.renumber (s.supply.next + 1) ((old, s.supply.next) :: s.planNodes) s.used s.conditions) := by
  unfold nodeNumber
  simp only [bind, StateT.bind, get, getThe, MonadStateOf.get, StateT.get, pure]
  cases s.planNodes.lookup old <;> rfl

/-- The first copy of a plan node takes the number that is noted for it, later ones a fresh one. -/
theorem copyNumber_eq (old : Int) (s : Duplication) :
    copyNumber old s =
      let mapped := (nodeNumber old s).1
      let s := (nodeNumber old s).2
      if mapped ∈ s.used then (s.supply.next, s.renumber (s.supply.next + 1) s.planNodes s.used s.conditions)
      else (mapped, s.renumber s.supply.next s.planNodes (mapped :: s.used) s.conditions) := by
  unfold copyNumber
  simp only [bind, StateT.bind, get, getThe, MonadStateOf.get, StateT.get, pure]
  generalize nodeNumber old s = r
  obtain ⟨mapped, s₁⟩ := r
  dsimp only
  by_cases hused : mapped ∈ s₁.used
  · rw [if_pos hused, if_pos hused]
    rfl
  · rw [if_neg hused, if_neg hused]
    rfl

/-- A number that is drawn is different from all that were given. -/
theorem Numbered.not_mem (h : Numbered s₀ s) : s.supply.next ∉ s.numbers :=
  fun hmem => Int.lt_irrefl _ (h.drawn _ hmem).2

/-- A number that is drawn and given to nothing. -/
theorem Numbered.draw (h : Numbered s₀ s) :
    Numbered s₀ (s.renumber (s.supply.next + 1) s.planNodes s.used s.conditions) := by
  have hstart := h.start_le
  refine ⟨Int.le_trans hstart (Int.le_of_lt (Int.lt_succ _)), ?_, h.distinct, h.planNodes, h.conditions, h.used⟩
  intro n hn
  obtain ⟨hle, hlt⟩ := h.drawn n hn
  exact ⟨hle, Int.lt_trans hlt (Int.lt_succ _)⟩

/-- A number that is drawn and given to a plan node or a condition. -/
theorem Numbered.give (h : Numbered s₀ s) (s' : Duplication) (hsupply : s'.supply.next = s.supply.next + 1)
    (hperm : List.Perm s'.numbers (s.supply.next :: s.numbers)) :
    (∀ n ∈ s'.numbers, s₀.supply.next ≤ n ∧ n < s'.supply.next) ∧ s'.numbers.Nodup := by
  have hstart := h.start_le
  refine ⟨?_, hperm.nodup_iff.2 (List.nodup_cons.2 ⟨h.not_mem, h.distinct⟩)⟩
  intro n hn
  rw [hsupply]
  rcases List.mem_cons.1 (hperm.mem_iff.1 hn) with rfl | hn
  · exact ⟨hstart, Int.lt_succ _⟩
  · obtain ⟨hle, hlt⟩ := h.drawn n hn
    exact ⟨hle, Int.lt_trans hlt (Int.lt_succ _)⟩

/-- Giving the next number to a condition without a copy keeps numbers different. -/
theorem Numbered.condition (h : Numbered s₀ s) {old : ConditionId} (hnew : old ∉ s.conditions.map (·.1)) :
    Numbered s₀ (s.renumber (s.supply.next + 1) s.planNodes s.used ((old, ⟨s.supply.next⟩) :: s.conditions)) := by
  obtain ⟨hdrawn, hdistinct⟩ := h.give
    (s.renumber (s.supply.next + 1) s.planNodes s.used ((old, ⟨s.supply.next⟩) :: s.conditions)) rfl List.perm_middle
  exact ⟨h.draw.start_le, hdrawn, hdistinct, h.planNodes, List.nodup_cons.2 ⟨hnew, h.conditions⟩, h.used⟩

/-- Giving the next number to a plan node without one keeps numbers different. -/
theorem Numbered.planNode (h : Numbered s₀ s) {old : Int} (hnew : old ∉ s.planNodes.map (·.1)) :
    Numbered s₀ (s.renumber (s.supply.next + 1) ((old, s.supply.next) :: s.planNodes) s.used s.conditions) := by
  obtain ⟨hdrawn, hdistinct⟩ := h.give
    (s.renumber (s.supply.next + 1) ((old, s.supply.next) :: s.planNodes) s.used s.conditions) rfl (List.Perm.refl _)
  refine ⟨h.draw.start_le, hdrawn, hdistinct, List.nodup_cons.2 ⟨hnew, h.planNodes⟩, h.conditions, ?_⟩
  intro n hn
  exact List.mem_cons_of_mem _ (h.used n hn)

/-- A number of a plan node that a copied node gets. -/
theorem Numbered.claim (h : Numbered s₀ s) {old new : Int} (hmem : (old, new) ∈ s.planNodes) :
    Numbered s₀ (s.renumber s.supply.next s.planNodes (new :: s.used) s.conditions) := by
  refine ⟨h.start_le, h.drawn, h.distinct, h.planNodes, h.conditions, ?_⟩
  intro n hn
  rcases List.mem_cons.1 hn with rfl | hn
  · exact List.mem_map_of_mem hmem
  · exact h.used n hn

/-- What holds during a session depends on the entities and on the copies noted, not on the numbers. -/
theorem InSession.congr (h : InSession s₀ input pending s) (hext : s.Extends s') (hn : Numbered s₀ s')
    (harena : ∀ kind, s'.ctx.arena kind = s.ctx.arena kind) (hentries : ∀ kind, s'.entries kind = s.entries kind)
    (hloose : s'.looseNodes = s.looseNodes)
    (hjoins : ∀ c : ConditionId, c.value < s₀.supply.next → s'.ctx.joinOfCondition? c = s.ctx.joinOfCondition? c) :
    InSession s₀ input pending s' := by
  have hcopies : ∀ {kind : EntityKind} {a b : Ref kind}, s'.Copies a b ↔ s.Copies a b := by
    intro kind a b
    rw [Copies, hentries, Copies]
  have hrecord : ∀ {kind : EntityKind} (r : Ref kind), s'.ctx.record? r = s.ctx.record? r := by
    intro kind r
    rw [Context.record?, harena, Context.record?]
  refine ⟨⟨h.wellFormed.of_arenas harena, ?_, h.kept.trans hext.kept, ?_, ?_, hn, ?_⟩, h.pendingNodup, ?_, ?_, ?_⟩
  · intro kind r hr
    rw [hrecord]
    exact h.frame r hr
  · intro kind
    rw [harena, hentries]
    exact h.table kind
  · rw [hloose]
    exact h.noLoose
  · intro c hc
    rw [hjoins c hc]
    exact h.joins c hc
  · simp only [hcopies]
    exact h.pendingNew
  · intro kind a b hab hpend
    obtain ⟨x, y, hx, hy, hf⟩ := h.faithful a b (hcopies.1 hab) hpend
    simp only [hrecord]
    exact ⟨x, y, hx, hy, hf.mono hext.entries hext.conditions⟩
  · simp only [hcopies, hrecord]
    exact h.uses

/-- Tables of numbers that grow make a later state. -/
theorem extends_renumber {next : Int} {planNodes : List (Int × Int)} {used : List Int}
    {conditions : List (ConditionId × ConditionId)} (hnext : s.supply.next ≤ next) (hplanNodes : s.planNodes ⊆ planNodes)
    (hused : s.used ⊆ used) (hconditions : s.conditions ⊆ conditions) :
    s.Extends (s.renumber next planNodes used conditions) := by
  refine ⟨?_, hconditions, hplanNodes, hused, .refl _, hnext⟩
  intro kind
  cases kind <;> exact List.Subset.refl _

/-- Numbers that are given properly keep a session in order. -/
theorem InSession.renumber (h : InSession s₀ input pending s) {next : Int} {planNodes : List (Int × Int)} {used : List Int}
    {conditions : List (ConditionId × ConditionId)} (hn : Numbered s₀ (s.renumber next planNodes used conditions))
    (hnext : s.supply.next ≤ next) (hplanNodes : s.planNodes ⊆ planNodes) (hused : s.used ⊆ used)
    (hconditions : s.conditions ⊆ conditions) :
    InSession s₀ input pending (s.renumber next planNodes used conditions) ∧
      s.Extends (s.renumber next planNodes used conditions) := by
  have hentries : ∀ kind, (s.renumber next planNodes used conditions).entries kind = s.entries kind := by
    intro kind
    cases kind <;> rfl
  have hext : s.Extends (s.renumber next planNodes used conditions) :=
    extends_renumber hnext hplanNodes hused hconditions
  exact ⟨h.congr hext hn (fun _ => rfl) hentries rfl (fun _ _ => rfl), hext⟩

/-- The call for a condition keeps the session in order and answers with the copy. -/
theorem keeps_condition (old : ConditionId) :
    Keeps (InSession s₀ input pending) (condition old) fun s new => s.CopiesCondition old new := by
  intro s h
  rw [condition_eq]
  cases hl : s.conditions.lookup old with
  | some new => exact ⟨h, .refl s, mem_of_lookup hl⟩
  | none =>
    obtain ⟨h', hext⟩ := h.renumber (h.numbered.condition (not_mem_keys_of_lookup hl)) (Int.le_of_lt (Int.lt_succ _))
      (List.Subset.refl _) (List.Subset.refl _) (List.subset_cons_self _ _)
    exact ⟨h', hext, List.mem_cons_self⟩

/-- The call for the number of a referenced node keeps the session in order and notes the answer. -/
theorem keeps_nodeNumber (old : Int) :
    Keeps (InSession s₀ input pending) (nodeNumber old) fun s new => (old, new) ∈ s.planNodes := by
  intro s h
  rw [nodeNumber_eq]
  cases hl : s.planNodes.lookup old with
  | some new => exact ⟨h, .refl s, mem_of_lookup hl⟩
  | none =>
    obtain ⟨h', hext⟩ := h.renumber (h.numbered.planNode (not_mem_keys_of_lookup hl)) (Int.le_of_lt (Int.lt_succ _))
      (List.subset_cons_self _ _) (List.Subset.refl _) (List.Subset.refl _)
    exact ⟨h', hext, List.mem_cons_self⟩

/-- The number of a copied plan node stands for it, if it is not used yet. -/
theorem keeps_copyNumber (old : Int) :
    Keeps (InSession s₀ input pending) (copyNumber old) fun s _ => old ∈ s.planNodes.map (·.1) := by
  intro s h
  obtain ⟨h₁, hext₁, hmem⟩ := keeps_nodeNumber old s h
  rw [copyNumber_eq]
  dsimp only
  split
  · obtain ⟨h₂, hext₂⟩ := h₁.renumber h₁.numbered.draw (Int.le_of_lt (Int.lt_succ _)) (List.Subset.refl _)
      (List.Subset.refl _) (List.Subset.refl _)
    exact ⟨h₂, hext₁.trans hext₂, List.mem_map_of_mem hmem⟩
  · obtain ⟨h₂, hext₂⟩ := h₁.renumber (h₁.numbered.claim hmem) (Int.le_refl _) (List.Subset.refl _)
      (List.subset_cons_self _ _) (List.Subset.refl _)
    exact ⟨h₂, hext₁.trans hext₂, List.mem_map_of_mem hmem⟩

/-- The calls for some conditions keep the session in order and answer with the copies in turn. -/
theorem keeps_conditions (olds : List ConditionId) : Keeps (InSession s₀ input pending) (olds.mapM condition) fun s news =>
    List.Forall₂ s.CopiesCondition olds news :=
  Keeps.mapM (R := fun s old new => s.CopiesCondition old new) (fun _ _ _ _ hext hc => hext.copiesCondition hc)
    fun c _ => keeps_condition c

/-- The session with conditions that belong to a group join. -/
def register (s : Duplication) (conditions : List ConditionId) (join : GroupJoinId) : Duplication :=
  { s with ctx := s.ctx.registerConditions conditions join }

/-- Noting conditions for a join makes a later state. -/
theorem extends_register (s : Duplication) (conditions : List ConditionId) (join : GroupJoinId) :
    s.Extends (s.register conditions join) := by
  refine ⟨?_, List.Subset.refl _, List.Subset.refl _, List.Subset.refl _, ?_, Int.le_refl _⟩
  · intro kind
    cases kind <;> exact List.Subset.refl _
  · intro kind r x hx
    refine ⟨x, ?_, rfl⟩
    cases kind <;> exact hx

/-- Only conditions that were copied in the session come to belong to another group join. -/
theorem InSession.register (h : InSession s₀ input pending s) {olds conditions : List ConditionId}
    (hc : List.Forall₂ s.CopiesCondition olds conditions) (join : GroupJoinId) :
    InSession s₀ input pending (s.register conditions join) ∧ s.Extends (s.register conditions join) := by
  refine ⟨h.congr (extends_register s conditions join) (h.numbered.congr rfl rfl rfl rfl) ?_ ?_ rfl ?_,
    extends_register s conditions join⟩
  · intro kind
    cases kind <;> rfl
  · intro kind
    cases kind <;> rfl
  · intro c hlt
    have hnone : ((conditions.map fun c => (c, join)).reverse).lookup c = none := by
      rw [List.lookup_eq_none_iff]
      intro p hp
      obtain ⟨c', hc', rfl⟩ := List.mem_map.1 (List.mem_reverse.1 hp)
      obtain ⟨old, hcopy⟩ := exists_of_forall₂ hc hc'
      have hfresh := (h.numbered.condition_drawn hcopy).1
      rw [bne_iff_ne]
      intro heq
      rw [heq] at hlt
      exact Int.not_lt.2 hfresh hlt
    rw [Context.joinOfCondition?, Duplication.register, Context.registerConditions, List.lookup_append, hnone,
      Option.none_or, Context.joinOfCondition?]

end ClusterPlan.Duplication
