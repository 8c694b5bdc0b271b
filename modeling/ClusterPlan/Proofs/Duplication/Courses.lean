import ClusterPlan.Proofs.Context.Growth
import ClusterPlan.Proofs.Duplication.Runs
import ClusterPlan.Proofs.Duplication.Tending

/-!
# The course of a call

Between two calls of a session anything can be done to the context, so a call starts from some well-formed context that has what
the session has noted (`Sound`). In its course trees and their lists stay as they are, and each tree that gets a copy has, node
by node, the tables that its copy has (`Leads`).
-/

namespace ClusterPlan

namespace Duplication

variable {kind : EntityKind} {s s' : Duplication}

/-- The context is well-formed and has what the session has noted. -/
structure Sound (s : Duplication) : Prop where
  wellFormed : s.ctx.WellFormed
  noted : s.Noted

/-- A later state in the course of a call: nothing is gone, trees have the tables that they had, and a tree that got a copy has
the tables of its copy. -/
structure Leads (s s' : Duplication) : Prop where
  has : ∀ ⦃kind : EntityKind⦄ (r : Ref kind), s.ctx.Has r → s'.ctx.Has r
  tables : ∀ t : TreeId, s.ctx.Has t → s'.ctx.tablesOf t = s.ctx.tablesOf t
  copied : ∀ old new, s'.trees.lookup old = some new → s.trees.lookup old = some new ∨
    s'.ctx.Has old ∧ s'.ctx.Has new ∧ s'.ctx.tablesOf new = s'.ctx.tablesOf old

namespace Leads

theorem refl (s : Duplication) : s.Leads s := ⟨fun _ _ hr => hr, fun _ _ => rfl, fun _ _ hl => Or.inl hl⟩

theorem trans {s₁ s₂ s₃ : Duplication} (h : s₁.Leads s₂) (h' : s₂.Leads s₃) : s₁.Leads s₃ where
  has _ r hr := h'.has r (h.has r hr)
  tables t ht := (h'.tables t (h.has t ht)).trans (h.tables t ht)
  copied old new hl := by
    rcases h'.copied old new hl with hl | hcopied
    · refine (h.copied old new hl).imp_right fun ⟨hold, hnew, htables⟩ => ⟨h'.has old hold, h'.has new hnew, ?_⟩
      rw [h'.tables old hold, h'.tables new hnew, htables]
    · exact Or.inr hcopied

/-- No tree is copied or changed. -/
theorem of_sameTrees (hwf : s'.ctx.WellFormed) (hs : s.ctx.SameTrees s'.ctx) (ht : s'.trees = s.trees)
    (hgrows : ∀ ⦃kind : EntityKind⦄ (r : Ref kind), s.ctx.Has r → s'.ctx.Has r) : s.Leads s' :=
  ⟨hgrows, fun t ht => Context.tablesOf_of_sameTrees hwf hs (hgrows t ht), fun old new hl => Or.inl (by rwa [ht] at hl)⟩

end Leads

namespace Sound

/-! ## Steps -/

/-- In a session in order an entity refers to what is in the context. -/
theorem has_references (h : s.Sound) {r : Ref kind} {x : kind.Record} (hx : s.ctx.record? r = some x) :
    ∀ ref ∈ kind.references x, s.ctx.Has ref.2 :=
  h.wellFormed.closed r x (Context.has_of_record? hx) hx

/-- Entering a copy of what is no tree or node keeps a session in order. -/
theorem enter (h : s.Sound) (ht : kind ≠ .tree) (hn : kind ≠ .node) {old : Ref kind} {x : kind.Record}
    (hx : s.ctx.record? old = some x) : (s.enter kind old x).Sound ∧ s.Leads (s.enter kind old x) := by
  have hwf : (s.enter kind old x).ctx.WellFormed :=
    h.wellFormed.insert ht hn fun ref href => (h.has_references hx ref href).insert x
  refine ⟨⟨hwf, h.noted.enter ht hn (Context.has_of_record? hx) x⟩,
    .of_sameTrees hwf (Context.sameTrees_withArena s.ctx _ ht hn) ?_ fun _ _ hr => hr.insert x⟩
  cases kind <;> first | rfl | contradiction

/-- Filling in the record of a copy keeps a session in order if its references stay in the context. -/
theorem change (h : s.Sound) (ht : kind ≠ .tree) (hn : kind ≠ .node) (new : Ref kind) {y : kind.Record}
    (hy : ∀ ref ∈ kind.references y, s.ctx.Has ref.2) :
    (s.change new fun _ => y).Sound ∧ s.Leads (s.change new fun _ => y) := by
  have hsame := Context.sameTrees_withArena s.ctx ((s.ctx.arena kind).modify new fun _ => y) ht hn
  have hgrows : ∀ ⦃kind' : EntityKind⦄ (r : Ref kind'), s.ctx.Has r → (s.change new fun _ => y).ctx.Has r :=
    fun _ r hr => (Context.has_update s.ctx new _ r).2 hr
  have hwf : (s.change new fun _ => y).ctx.WellFormed :=
    ⟨Context.Closed.update h.wellFormed.closed fun _ _ _ => hy, h.wellFormed.shaped.of_sameTrees hsame⟩
  exact ⟨⟨hwf, h.noted.of_same (fun kind' _ => entries_change s new _ ht kind') hgrows⟩, .of_sameTrees hwf hsame rfl hgrows⟩

/-- The end of a call: the copy that was entered gets its own references. -/
theorem finish {s₁ : Duplication} (h₁ : s₁.Sound) (hleads : s.Leads s₁) (ht : kind ≠ .tree) (hn : kind ≠ .node) {new : Ref kind}
    (hnew : s₁.ctx.Has new) {y : kind.Record} (hy : ∀ ref ∈ kind.references y, s₁.ctx.Has ref.2) :
    (s₁.change new fun _ => y).Sound ∧ s.Leads (s₁.change new fun _ => y) ∧ (s₁.change new fun _ => y).ctx.Has new := by
  obtain ⟨h₂, hleads₂⟩ := h₁.change ht hn new hy
  exact ⟨h₂, hleads.trans hleads₂, hleads₂.has new hnew⟩

/-- Noting a use on a node keeps a session in order. -/
theorem addUse (h : s.Sound) (n : NodeId) {r : SourceId} (hr : s.ctx.Has r) :
    (s.change n (·.addUse r)).Sound ∧ s.Leads (s.change n (·.addUse r)) := by
  have hgrows : ∀ ⦃kind' : EntityKind⦄ (r' : Ref kind'), s.ctx.Has r' → (s.change n (·.addUse r)).ctx.Has r' :=
    fun _ r' hr' => (Context.has_update s.ctx n _ r').2 hr'
  have hwf : (s.change n (·.addUse r)).ctx.WellFormed := h.wellFormed.addUse hr
  exact ⟨⟨hwf, h.noted.of_same (fun kind' _ => entries_change s n _ (by simp) kind') hgrows⟩,
    .of_sameTrees hwf (Context.sameTrees_addUse s.ctx n r) rfl hgrows⟩

/-- The end of a call for a source: its node notes it. -/
theorem finishSource {s₁ : Duplication} (h₁ : s₁.Sound) (hleads : s.Leads s₁) {new : SourceId} (hnew : s₁.ctx.Has new)
    {y : EntityKind.source.Record} (hy : ∀ ref ∈ EntityKind.source.references y, s₁.ctx.Has ref.2) :
    ((s₁.change new fun _ => y).change y.node (·.addUse new)).Sound ∧
      s.Leads ((s₁.change new fun _ => y).change y.node (·.addUse new)) ∧
      ((s₁.change new fun _ => y).change y.node (·.addUse new)).ctx.Has new := by
  obtain ⟨h₂, hleads₂, hnew₂⟩ := h₁.finish hleads (by simp) (by simp) hnew hy
  obtain ⟨h₃, hleads₃⟩ := h₂.addUse y.node hnew₂
  exact ⟨h₃, hleads₂.trans hleads₃, hleads₃.has new hnew₂⟩

/-- New numbers keep a session in order. -/
theorem renumber (h : s.Sound) (next : Int) (planNodes : List (Int × Int)) (used : List Int)
    (conditions : List (ConditionId × ConditionId)) :
    (s.renumber next planNodes used conditions).Sound ∧ s.Leads (s.renumber next planNodes used conditions) :=
  ⟨⟨h.wellFormed, h.noted.of_same (fun kind _ => by cases kind <;> rfl) fun _ _ hr => hr⟩,
    .of_sameTrees h.wellFormed (.refl s.ctx) rfl fun _ _ hr => hr⟩

/-- Noting conditions for a join keeps a session in order. -/
theorem register (h : s.Sound) (conditions : List ConditionId) (join : GroupJoinId) :
    (s.register conditions join).Sound ∧ s.Leads (s.register conditions join) := by
  have hwf := h.wellFormed.registerConditions conditions join
  have hgrows : ∀ ⦃kind : EntityKind⦄ (r : Ref kind), s.ctx.Has r → (s.register conditions join).ctx.Has r :=
    fun kind r hr => by cases kind <;> exact hr
  exact ⟨⟨hwf, h.noted.of_same (fun kind _ => by cases kind <;> rfl) hgrows⟩,
    .of_sameTrees hwf ⟨fun _ => rfl, fun _ y hy => ⟨y, hy, rfl⟩⟩ rfl hgrows⟩

/-- The copy of a tree has the tables of the tree. -/
theorem enterTree (h : s.Sound) {old : TreeId} {t : TableTree} (ht : s.ctx.record? old = some t) :
    (s.enterTree old t).Sound ∧ s.Leads (s.enterTree old t) := by
  have hwf := h.wellFormed
  have hnode : ∀ n, s.ctx.Has n → (s.enterTree old t).ctx.nodes.get n = s.ctx.nodes.get n :=
    fun n hn => Arena.get_congr (record?_enterTree_of_has s old t hn)
  have hlist : ∀ a, s.ctx.Has a → (s.enterTree old t).ctx.tablesOf a = s.ctx.tablesOf a :=
    fun a ha => Context.tablesOf_congr (record?_enterTree_of_has s old t ha) fun n hn =>
      congrArg TableNode.table (hnode n (hwf.has_node (Context.record?_get_tree ha) hn))
  have hcopy : (s.enterTree old t).ctx.tablesOf ⟨s.ctx.trees.size⟩ = s.ctx.tablesOf old := by
    have hget : s.ctx.trees.get old = t := Arena.get_of_get? _ ht
    have hself : (s.enterTree old t).ctx.trees.get ⟨s.ctx.trees.size⟩ = linkTree t.nodes s.ctx.nodes.size t :=
      Arena.get_of_get? _ (record?_tree_enterTree_self s old t)
    rw [Context.tablesOf, Context.tablesOf, TableTree.tables, TableTree.tables, hself, hget, linkTree, List.map_map]
    refine List.map_congr_left fun n hn => ?_
    have hlinked : (s.enterTree old t).ctx.nodes.get (relink t.nodes s.ctx.nodes.size n) = _ :=
      Arena.get_of_get? _ (record?_relink_enterTree hwf ht hn)
    rw [Function.comp_apply, hlinked, relinkNode]
  refine ⟨⟨wellFormed_enterTree hwf ht, h.noted.enterTree ht⟩, fun _ _ hr => has_enterTree s old t hr, hlist, ?_⟩
  intro a new hl
  have htrees : (s.enterTree old t).trees = (old, ⟨s.ctx.trees.size⟩) :: s.trees := rfl
  rw [htrees, lookup_cons_eq_ite] at hl
  split at hl
  · rename_i heq
    cases hl
    have hold : s.ctx.Has a := heq ▸ Context.has_of_record? ht
    refine Or.inr ⟨has_enterTree s old t hold, Context.has_of_record? (record?_tree_enterTree_self s old t), ?_⟩
    rw [hcopy, hlist a hold, heq]
  · exact Or.inl hl

end Sound

/-! ## Calls -/

/-- A call that is asked for an entity that there is keeps a session in order and answers with an entity that there is. -/
def Serves (call : Ref kind → Copying (Ref kind)) : Prop :=
  ∀ old s, Sound s → s.ctx.Has old → (call old s).2.Sound ∧ s.Leads (call old s).2 ∧ (call old s).2.ctx.Has (call old s).1

/-- Calls for several entities, one after the other, keep a session in order and answer with entities. -/
theorem Serves.mapM {call : Ref kind → Copying (Ref kind)} (h : Serves call) (olds : List (Ref kind)) (hs : s.Sound)
    (holds : ∀ old ∈ olds, s.ctx.Has old) :
    (olds.mapM call s).2.Sound ∧ s.Leads (olds.mapM call s).2 ∧ ∀ new ∈ (olds.mapM call s).1, (olds.mapM call s).2.ctx.Has new := by
  induction olds generalizing s with
  | nil => exact ⟨hs, .refl s, nofun⟩
  | cons old olds ih =>
    rw [List.mapM_cons]
    obtain ⟨hs₁, hleads₁, hnew⟩ := h old s hs (holds old List.mem_cons_self)
    obtain ⟨hs₂, hleads₂, hnews⟩ := ih hs₁ fun a ha => hleads₁.has a (holds a (List.mem_cons_of_mem old ha))
    refine ⟨hs₂, hleads₁.trans hleads₂, fun a ha => ?_⟩
    rcases List.mem_cons.1 ha with rfl | ha
    · exact hleads₂.has _ hnew
    · exact hnews a ha

theorem Serves.mapM_option {call : Ref kind → Copying (Ref kind)} (h : Serves call) (old? : Option (Ref kind)) (hs : s.Sound)
    (hold : ∀ old ∈ old?, s.ctx.Has old) :
    (old?.mapM call s).2.Sound ∧ s.Leads (old?.mapM call s).2 ∧ ∀ new ∈ (old?.mapM call s).1, (old?.mapM call s).2.ctx.Has new := by
  cases old? with
  | none => exact ⟨hs, .refl s, nofun⟩
  | some old =>
    obtain ⟨hs₁, hleads, hnew⟩ := h old s hs (hold old rfl)
    refine ⟨hs₁, hleads, fun a ha => ?_⟩
    obtain rfl := Option.some.inj ha
    exact hnew

/-- The call for a tree gives the copy the same tables. -/
theorem serves_tree : Serves tree := by
  intro old s hs hold
  rw [tree_eq]
  cases hl : s.trees.lookup old with
  | some new => exact ⟨hs, .refl s, (@hs.noted .tree (by simp) _ (mem_of_lookup hl)).2⟩
  | none =>
    obtain ⟨hs₁, hleads⟩ := hs.enterTree (Context.record?_get_tree hold)
    exact ⟨hs₁, hleads, Context.has_of_record? (record?_tree_enterTree_self s old _)⟩

/-- Copying a tree leaves the lists of all trees alone. -/
theorem get_tree_of_has (old : TreeId) (s : Duplication) {t : TreeId} (ht : s.ctx.Has t) :
    (tree old s).2.ctx.trees.get t = s.ctx.trees.get t := by
  rw [tree_eq]
  cases s.trees.lookup old with
  | some new => rfl
  | none => exact Arena.get_congr (record?_enterTree_of_has s old _ ht)

/-- The tree of a node is there, and the node has a place in its list. -/
theorem Sound.exists_place (h : s.Sound) {n : NodeId} (hn : s.ctx.Has n) :
    s.ctx.Has (s.ctx.nodes.get n).tree ∧ ∃ i, (s.ctx.trees.get (s.ctx.nodes.get n).tree).position? n = some i ∧
      (s.ctx.trees.get (s.ctx.nodes.get n).tree).nodes[i]? = some n := by
  obtain ⟨x, hx⟩ := Context.exists_record? hn
  have hget : s.ctx.nodes.get n = x := Arena.get_of_get? _ hx
  rw [hget]
  have ht := h.wellFormed.has_tree hx
  have hlisted : n ∈ (s.ctx.trees.get x.tree).nodes := h.wellFormed.shaped.listed n x _ hx (Context.record?_get_tree ht)
  obtain ⟨i, hi⟩ : ∃ i, (s.ctx.trees.get x.tree).position? n = some i := by
    rw [← Option.isSome_iff_exists, TableTree.position?, List.findIdx?_isSome, List.any_eq_true]
    exact ⟨n, hlisted, by simp⟩
  obtain ⟨hlt, heq, -⟩ := List.findIdx?_eq_some_iff_getElem.1 hi
  exact ⟨ht, i, hi, (List.getElem?_eq_getElem hlt).trans (congrArg some (by simpa using heq))⟩

/-- A node is looked for in the list of the copied tree, at the place where it stands. -/
theorem Sound.node_eq_getD (h : s.Sound) {n : NodeId} (hn : s.ctx.Has n) {i : Nat}
    (hi : (s.ctx.trees.get (s.ctx.nodes.get n).tree).position? n = some i) :
    node n s = ((((tree (s.ctx.nodes.get n).tree s).2.ctx.trees.get (tree (s.ctx.nodes.get n).tree s).1).nodes[i]?).getD n,
      (tree (s.ctx.nodes.get n).tree s).2) := by
  rw [node_eq]
  dsimp only
  rw [get_tree_of_has _ s (h.exists_place hn).1, hi]

/-- The call for a node copies its tree, or the node alone if its tree does not list it. -/
theorem serves_node : Serves node := by
  intro n s hs hn
  obtain ⟨ht, i, hi, -⟩ := hs.exists_place hn
  obtain ⟨hs₁, hleads, hnew⟩ := serves_tree _ s hs ht
  rw [hs.node_eq_getD hn hi]
  refine ⟨hs₁, hleads, ?_⟩
  -- where the copied tree is shorter than the original one, nothing is found
  cases hm : ((tree (s.ctx.nodes.get n).tree s).2.ctx.trees.get (tree (s.ctx.nodes.get n).tree s).1).nodes[i]? with
  | none => exact hleads.has n hn
  | some m => exact hs₁.wellFormed.has_node (Context.record?_get_tree hnew) (List.mem_of_getElem? hm)

/-- The call for a condition keeps a session in order. -/
theorem Sound.condition (h : s.Sound) (c : ConditionId) :
    (Duplication.condition c s).2.Sound ∧ s.Leads (Duplication.condition c s).2 := by
  rw [condition_eq]
  cases s.conditions.lookup c with
  | some new => exact ⟨h, .refl s⟩
  | none => exact h.renumber _ _ _ _

theorem Sound.conditions (h : s.Sound) (cs : List ConditionId) :
    (cs.mapM Duplication.condition s).2.Sound ∧ s.Leads (cs.mapM Duplication.condition s).2 := by
  induction cs generalizing s with
  | nil => exact ⟨h, .refl s⟩
  | cons c cs ih =>
    rw [List.mapM_cons]
    obtain ⟨h₁, hleads₁⟩ := h.condition c
    obtain ⟨h₂, hleads₂⟩ := ih h₁
    exact ⟨h₂, hleads₁.trans hleads₂⟩

/-- The calls with some fuel serve. If there is none left, they answer with what they are given. -/
structure CallsServe (fuel : Nat) : Prop where
  source : Serves (sourceWith fuel)
  group : Serves (groupWith fuel)
  groupJoin : Serves (groupJoinWith fuel)

variable {fuel : Nat}

/-- The call for a source serves if the calls of less fuel do. -/
theorem CallsServe.source_succ (ih : CallsServe fuel) : Serves (sourceWith (fuel + 1)) := by
  intro old s hs hold
  rw [sourceWith_succ]
  cases hl : s.sources.lookup old with
  | some new => exact ⟨hs, .refl s, (@hs.noted .source (by simp) _ (mem_of_lookup hl)).2⟩
  | none =>
    obtain ⟨x, hx⟩ := Context.exists_record? hold
    have hget : s.ctx.sources.get old = x := Arena.get_of_get? _ hx
    have hrefs := hs.has_references hx
    simp only [EntityKind.references, List.forall_mem_cons, List.forall_mem_append, List.forall_mem_map,
      Option.mem_toList] at hrefs
    obtain ⟨hnode, hgroup, hjoin⟩ := hrefs
    have hnew : (s.enter .source old x).ctx.Has (s.ctx.insert .source x).1 := Context.has_insert_self s.ctx x
    obtain ⟨h₀, hleads₀⟩ := hs.enter (by simp) (by simp) hx
    obtain ⟨h₁, hleads₁, hn⟩ := serves_node x.node _ h₀ (hleads₀.has _ hnode)
    have hleads₀₁ := hleads₀.trans hleads₁
    obtain ⟨h₂, hleads₂, hg⟩ := ih.group.mapM_option x.group h₁ fun g hg => hleads₀₁.has g (hgroup g hg)
    have hleads₀₂ := hleads₀₁.trans hleads₂
    obtain ⟨h₃, hleads₃, hj⟩ := ih.groupJoin.mapM_option x.parentJoin h₂ fun j hj => hleads₀₂.has j (hjoin j hj)
    have hleads₀₃ := hleads₀₂.trans hleads₃
    dsimp only
    rw [hget]
    refine h₃.finishSource hleads₀₃ (hleads₃.has _ (hleads₂.has _ (hleads₁.has _ hnew))) ?_
    simp only [EntityKind.references, List.forall_mem_cons, List.forall_mem_append, List.forall_mem_map, Option.mem_toList]
    exact ⟨hleads₃.has _ (hleads₂.has _ hn), fun g hmem => hleads₃.has g (hg g hmem), hj⟩

theorem CallsServe.group_succ (ih : CallsServe fuel) : Serves (groupWith (fuel + 1)) := by
  intro old s hs hold
  rw [groupWith_succ]
  cases hl : s.groups.lookup old with
  | some new => exact ⟨hs, .refl s, (@hs.noted .group (by simp) _ (mem_of_lookup hl)).2⟩
  | none =>
    obtain ⟨g, hg⟩ := Context.exists_record? hold
    have hget : s.ctx.groups.get old = g := Arena.get_of_get? _ hg
    have hrefs := hs.has_references hg
    simp only [EntityKind.references, List.forall_mem_append, List.forall_mem_map, Option.mem_toList] at hrefs
    obtain ⟨⟨htables, hjoins⟩, hmerged⟩ := hrefs
    have hnew : (s.enter .group old g).ctx.Has (s.ctx.insert .group g).1 := Context.has_insert_self s.ctx g
    obtain ⟨h₀, hleads₀⟩ := hs.enter (by simp) (by simp) hg
    obtain ⟨h₁, hleads₁, ht⟩ := ih.source.mapM g.tables h₀ fun t ht => hleads₀.has t (htables t ht)
    have hleads₀₁ := hleads₀.trans hleads₁
    obtain ⟨h₂, hleads₂, hj⟩ := ih.groupJoin.mapM g.joins h₁ fun j hj => hleads₀₁.has j (hjoins j hj)
    have hleads₀₂ := hleads₀₁.trans hleads₂
    obtain ⟨h₃, hleads₃, hm⟩ := ih.group.mapM_option g.mergedInto h₂ fun m hm => hleads₀₂.has m (hmerged m hm)
    dsimp only
    rw [hget]
    refine h₃.finish (hleads₀₂.trans hleads₃) (by simp) (by simp)
      (hleads₃.has _ (hleads₂.has _ (hleads₁.has _ hnew))) ?_
    simp only [EntityKind.references, List.forall_mem_append, List.forall_mem_map, Option.mem_toList]
    exact ⟨⟨fun t hmem => hleads₃.has t (hleads₂.has t (ht t hmem)), fun j hmem => hleads₃.has j (hj j hmem)⟩, hm⟩

theorem CallsServe.groupJoin_succ (ih : CallsServe fuel) : Serves (groupJoinWith (fuel + 1)) := by
  intro old s hs hold
  rw [groupJoinWith_succ]
  cases hl : s.groupJoins.lookup old with
  | some new => exact ⟨hs, .refl s, (@hs.noted .groupJoin (by simp) _ (mem_of_lookup hl)).2⟩
  | none =>
    obtain ⟨j, hj⟩ := Context.exists_record? hold
    have hget : s.ctx.groupJoins.get old = j := Arena.get_of_get? _ hj
    have hrefs := hs.has_references hj
    simp only [EntityKind.references, List.forall_mem_cons] at hrefs
    obtain ⟨hgroup, hparent, hchild, -⟩ := hrefs
    have hnew : (s.enter .groupJoin old j).ctx.Has (s.ctx.insert .groupJoin j).1 := Context.has_insert_self s.ctx j
    obtain ⟨h₀, hleads₀⟩ := hs.enter (by simp) (by simp) hj
    obtain ⟨h₁, hleads₁, hg⟩ := ih.group j.group _ h₀ (hleads₀.has _ hgroup)
    have hleads₀₁ := hleads₀.trans hleads₁
    obtain ⟨h₂, hleads₂, hp⟩ := ih.source j.parent _ h₁ (hleads₀₁.has _ hparent)
    have hleads₀₂ := hleads₀₁.trans hleads₂
    obtain ⟨h₃, hleads₃, hc⟩ := ih.source j.child _ h₂ (hleads₀₂.has _ hchild)
    obtain ⟨h₄, hleads₄⟩ := h₃.conditions j.conditions
    dsimp only
    rw [hget]
    obtain ⟨h₅, hleads₅⟩ := h₄.register (j.conditions.mapM Duplication.condition _).1 (s.ctx.insert .groupJoin j).1
    have hleads₃₅ := (hleads₃.trans hleads₄).trans hleads₅
    refine h₅.finish (hleads₀₂.trans hleads₃₅) (by simp) (by simp)
      (hleads₃₅.has _ (hleads₂.has _ (hleads₁.has _ hnew))) ?_
    simp only [EntityKind.references, List.forall_mem_cons]
    exact ⟨hleads₃₅.has _ (hleads₂.has _ hg), hleads₃₅.has _ hp, hleads₅.has _ (hleads₄.has _ hc), by simp⟩

/-- Calls of every fuel serve. -/
theorem callsServe (fuel : Nat) : CallsServe fuel := by
  induction fuel with
  | zero => exact ⟨fun _ s hs hold => ⟨hs, .refl s, hold⟩, fun _ s hs hold => ⟨hs, .refl s, hold⟩,
      fun _ s hs hold => ⟨hs, .refl s, hold⟩⟩
  | succ fuel ih => exact ⟨ih.source_succ, ih.group_succ, ih.groupJoin_succ⟩

theorem serves_source : Serves source := fun old s => (callsServe s.fuel).source old s

theorem serves_keyJoin : Serves keyJoin := by
  intro old s hs hold
  rw [keyJoin_eq]
  cases hl : s.keyJoins.lookup old with
  | some new => exact ⟨hs, .refl s, (@hs.noted .keyJoin (by simp) _ (mem_of_lookup hl)).2⟩
  | none =>
    obtain ⟨j, hj⟩ := Context.exists_record? hold
    have hget : s.ctx.keyJoins.get old = j := Arena.get_of_get? _ hj
    have hrefs := hs.has_references hj
    simp only [EntityKind.references, List.forall_mem_cons] at hrefs
    obtain ⟨hparent, hchild, -⟩ := hrefs
    have hnew : (s.enter .keyJoin old j).ctx.Has (s.ctx.insert .keyJoin j).1 := Context.has_insert_self s.ctx j
    obtain ⟨h₀, hleads₀⟩ := hs.enter (by simp) (by simp) hj
    obtain ⟨h₁, hleads₁, hp⟩ := serves_source j.parent _ h₀ (hleads₀.has _ hparent)
    have hleads₀₁ := hleads₀.trans hleads₁
    obtain ⟨h₂, hleads₂, hc⟩ := serves_source j.child _ h₁ (hleads₀₁.has _ hchild)
    obtain ⟨h₃, hleads₃⟩ := h₂.conditions j.conditions
    dsimp only
    rw [hget]
    refine h₃.finish ((hleads₀₁.trans hleads₂).trans hleads₃) (by simp) (by simp)
      (hleads₃.has _ (hleads₂.has _ (hleads₁.has _ hnew))) ?_
    simp only [EntityKind.references, List.forall_mem_cons]
    exact ⟨hleads₃.has _ (hleads₂.has _ hp), hleads₃.has _ hc, by simp⟩

/-- An entity that refers to nothing is finished when it is entered. -/
theorem Sound.enterWhole (h : s.Sound) (ht : kind ≠ .tree) (hn : kind ≠ .node) {old : Ref kind} {x : kind.Record}
    (hx : s.ctx.record? old = some x) : (s.enter kind old x).Sound ∧ s.Leads (s.enter kind old x) ∧
      (s.enter kind old x).ctx.Has (s.ctx.insert kind x).1 :=
  ⟨(h.enter ht hn hx).1, (h.enter ht hn hx).2, Context.has_insert_self s.ctx x⟩

theorem serves_hashTable : Serves hashTable := by
  intro old s hs hold
  rw [hashTable_eq]
  cases hl : s.hashTables.lookup old with
  | some new => exact ⟨hs, .refl s, (@hs.noted .hashTable (by simp) _ (mem_of_lookup hl)).2⟩
  | none =>
    obtain ⟨t, ht⟩ := Context.exists_record? hold
    have hget : s.ctx.hashTables.get old = t := Arena.get_of_get? _ ht
    dsimp only
    rw [hget]
    exact hs.enterWhole (by simp) (by simp) ht

theorem serves_bloomFilter : Serves bloomFilter := by
  intro old s hs hold
  rw [bloomFilter_eq]
  cases hl : s.bloomFilters.lookup old with
  | some new => exact ⟨hs, .refl s, (@hs.noted .bloomFilter (by simp) _ (mem_of_lookup hl)).2⟩
  | none =>
    obtain ⟨f, hf⟩ := Context.exists_record? hold
    have hget : s.ctx.bloomFilters.get old = f := Arena.get_of_get? _ hf
    dsimp only
    rw [hget]
    exact hs.enterWhole (by simp) (by simp) hf

/-- The call for an entity of any kind serves. -/
theorem serves_entity (kind : EntityKind) : Serves (entity kind) := by
  cases kind with
  | tree => exact serves_tree
  | node => exact serves_node
  | source => exact serves_source
  | group => exact fun old s => (callsServe s.fuel).group old s
  | groupJoin => exact fun old s => (callsServe s.fuel).groupJoin old s
  | keyJoin => exact serves_keyJoin
  | hashTable => exact serves_hashTable
  | bloomFilter => exact serves_bloomFilter

/-- The call for the number of a referenced node keeps a session in order. -/
theorem Sound.nodeNumber (h : s.Sound) (id : Int) :
    (Duplication.nodeNumber id s).2.Sound ∧ s.Leads (Duplication.nodeNumber id s).2 := by
  rw [nodeNumber_eq]
  cases s.planNodes.lookup id with
  | some new => exact ⟨h, .refl s⟩
  | none => exact h.renumber _ _ _ _

/-- The call for the number of a copied node keeps a session in order. -/
theorem Sound.copyNumber (h : s.Sound) (id : Int) :
    (Duplication.copyNumber id s).2.Sound ∧ s.Leads (Duplication.copyNumber id s).2 := by
  obtain ⟨h₁, hleads₁⟩ := h.nodeNumber id
  rw [copyNumber_eq]
  dsimp only
  split
  · obtain ⟨h₂, hleads₂⟩ := h₁.renumber _ _ _ _
    exact ⟨h₂, hleads₁.trans hleads₂⟩
  · obtain ⟨h₂, hleads₂⟩ := h₁.renumber _ _ _ _
    exact ⟨h₂, hleads₁.trans hleads₂⟩

/-- A call keeps a session in order and leaves trees as they are. -/
theorem Sound.call (h : s.Sound) {c : Call} (hc : c.Valid s) : (c.apply s).Sound ∧ s.Leads (c.apply s) := by
  cases c with
  | entity ref =>
    obtain ⟨h₁, hleads, -⟩ := serves_entity ref.1 ref.2 s h hc
    exact ⟨h₁, hleads⟩
  | condition c => exact h.condition c
  | nodeNumber id => exact h.nodeNumber id
  | copyNumber id => exact h.copyNumber id

theorem Sound.calls (h : s.Sound) {calls : List Call} (hc : Along Call.apply (fun s c => c.Valid s) s calls) :
    (calls.foldl Call.apply s).Sound ∧ s.Leads (calls.foldl Call.apply s) := by
  induction calls generalizing s with
  | nil => exact ⟨h, .refl s⟩
  | cons c calls ih =>
    obtain ⟨h₁, hleads₁⟩ := h.call hc.1
    obtain ⟨h₂, hleads₂⟩ := ih h₁ hc.2
    exact ⟨h₂, hleads₁.trans hleads₂⟩

end Duplication

end ClusterPlan
