import ClusterPlan.Proofs.Context.Hanging

/-!
# Sources on nodes

A source is noted in the uses of the node that it is placed on, apart from sources that are just being copied (`Placed`).
`Tidy` puts this together with the shape of the trees, and says what keeps both: operations on anything but trees, nodes and
the places of sources leave them alone (`SamePlaces`), and a source is placed in two steps, the second of which notes it.
-/

namespace ClusterPlan.Context

variable {kind : EntityKind} {T : Catalog.Table → Prop} {pending : List SourceId} {ctx ctx' : Context}

/-! ## What has nothing to do with places -/

/-- Trees, nodes and the places of sources are as they were, and nothing is gone. -/
structure SamePlaces (ctx ctx' : Context) : Prop where
  trees : ∀ t : TreeId, ctx'.record? t = ctx.record? t
  nodes : ∀ n : NodeId, ctx'.record? n = ctx.record? n
  sources : ∀ r : SourceId, (ctx'.record? r).map (·.node) = (ctx.record? r).map (·.node)
  grows : ∀ ⦃kind : EntityKind⦄ (r : Ref kind), ctx.Has r → ctx'.Has r

theorem SamePlaces.refl (ctx : Context) : ctx.SamePlaces ctx := ⟨fun _ => rfl, fun _ => rfl, fun _ => rfl, fun _ _ hr => hr⟩

theorem SamePlaces.trans {ctx₁ ctx₂ ctx₃ : Context} (h : ctx₁.SamePlaces ctx₂) (h' : ctx₂.SamePlaces ctx₃) :
    ctx₁.SamePlaces ctx₃ where
  trees t := (h'.trees t).trans (h.trees t)
  nodes n := (h'.nodes n).trans (h.nodes n)
  sources r := (h'.sources r).trans (h.sources r)
  grows _ r hr := h'.grows r (h.grows r hr)

/-- The arenas of trees, nodes and sources are as they were. -/
theorem samePlaces_of_arenas (ht : ctx'.trees = ctx.trees) (hn : ctx'.nodes = ctx.nodes) (hs : ctx'.sources = ctx.sources)
    (hgrows : ∀ ⦃kind : EntityKind⦄ (r : Ref kind), ctx.Has r → ctx'.Has r) : ctx.SamePlaces ctx' where
  trees t := by simp only [record?, arena, ht]
  nodes n := by simp only [record?, arena, hn]
  sources r := by simp only [record?, arena, hs]
  grows := hgrows

/-- An entity that is no tree, node or source can be added without moving anything. -/
theorem samePlaces_insert (ctx : Context) (x : kind.Record) (ht : kind ≠ .tree) (hn : kind ≠ .node) (hs : kind ≠ .source) :
    ctx.SamePlaces (ctx.insert kind x).2 where
  trees t := record?_withArena_of_ne ctx _ ht.symm t
  nodes n := record?_withArena_of_ne ctx _ hn.symm n
  sources r := congrArg _ (record?_withArena_of_ne ctx _ hs.symm r)
  grows _ _ hr := hr.insert x

/-- An entity that is no tree, node or source can be changed without moving anything. -/
theorem samePlaces_update (ctx : Context) (r : Ref kind) (f : kind.Record → kind.Record) (ht : kind ≠ .tree)
    (hn : kind ≠ .node) (hs : kind ≠ .source) : ctx.SamePlaces (ctx.update r f) where
  trees t := record?_withArena_of_ne ctx _ ht.symm t
  nodes n := record?_withArena_of_ne ctx _ hn.symm n
  sources r := congrArg _ (record?_withArena_of_ne ctx _ hs.symm r)
  grows _ _ hr := (has_update ctx r f _).2 hr

/-- A source changes, but not its place. -/
theorem samePlaces_updateSource (ctx : Context) (s : SourceId) {f : TableSource → TableSource} (hf : ∀ x, (f x).node = x.node) :
    ctx.SamePlaces (ctx.update s f) where
  trees t := record?_update_of_ne _ (by simp)
  nodes n := record?_update_of_ne _ (by simp)
  sources r := by
    by_cases hr : r = s
    · subst hr
      rw [record?_update_self, Option.map_map]
      exact congrArg (Option.map · (ctx.record? r)) (funext hf)
    · rw [record?_update_of_ne _ (by simpa using hr)]
  grows _ _ hr := (has_update ctx s f _).2 hr

/-- Steps that leave all places do so one after the other. -/
theorem samePlaces_foldl {f : Context → Ref kind → Context} (h : ∀ (ctx : Context) r, ctx.SamePlaces (f ctx r))
    (rs : List (Ref kind)) (ctx : Context) : ctx.SamePlaces (rs.foldl f ctx) := by
  induction rs generalizing ctx with
  | nil => exact .refl ctx
  | cons r rs ih => exact (h ctx r).trans (ih (f ctx r))

/-- A source stays on its node when it becomes required or optional. -/
theorem samePlaces_setRequired (ctx : Context) (s : SourceId) (required : Bool) :
    ctx.SamePlaces (ctx.setRequired s required) := by
  rw [setRequired_eq]
  exact samePlaces_updateSource ctx s fun _ => rfl

/-- A source stays on its node when it gets a group. -/
theorem samePlaces_addGroup (ctx : Context) (first : SourceId) : ctx.SamePlaces (ctx.addGroup first).2 := by
  rw [addGroup_eq]
  exact (samePlaces_insert ctx _ (by simp) (by simp) (by simp)).trans (samePlaces_updateSource _ first fun _ => rfl)

/-- Noting conditions for a join moves nothing. -/
theorem samePlaces_registerConditions (ctx : Context) (conditions : List ConditionId) (join : GroupJoinId) :
    ctx.SamePlaces (ctx.registerConditions conditions join) :=
  samePlaces_of_arenas rfl rfl rfl fun kind r hr => by cases kind <;> exact hr

/-- A source stays on its node when it joins a group. -/
theorem samePlaces_joinGroup (ctx : Context) (group : GroupId) (s : SourceId) : ctx.SamePlaces (ctx.joinGroup group s) := by
  rw [joinGroup_eq]
  exact (samePlaces_update ctx group _ (by simp) (by simp) (by simp)).trans (samePlaces_updateSource _ s fun _ => rfl)

/-- Sources stay on their nodes when they are joined. -/
theorem samePlaces_addGroupJoin {group : GroupId} {parent child : SourceId} {conditions : List ConditionId}
    {join : Catalog.Join} {id : GroupJoinId} (hok : ctx.addGroupJoin group parent child conditions join = .ok (id, ctx')) :
    ctx.SamePlaces ctx' := by
  by_cases hj : ctx.joins join parent child = true
  · rw [addGroupJoin_eq hj] at hok
    simp only [Except.ok.injEq, Prod.mk.injEq] at hok
    obtain ⟨-, rfl⟩ := hok
    have hins := @samePlaces_insert .groupJoin ctx { group, parent, child, conditions, join } (by simp) (by simp) (by simp)
    have hregistered := hins.trans (samePlaces_registerConditions _ conditions
      (ctx.insert .groupJoin { group, parent, child, conditions, join }).1)
    have hjoined := (hregistered.trans (samePlaces_joinGroup _ group parent)).trans (samePlaces_joinGroup _ group child)
    have hlisted := hjoined.trans (@samePlaces_update .group _ group (fun g =>
      { g with joins := g.joins ++ [(ctx.insert .groupJoin { group, parent, child, conditions, join }).1] }) (by simp) (by simp)
      (by simp))
    exact hlisted.trans (samePlaces_updateSource _ child fun _ => rfl)
  · rw [Context.addGroupJoin, if_neg hj] at hok
    cases hok

/-- Sources stay on their nodes when their join is rejected. -/
theorem samePlaces_rejectGroupJoin (ctx : Context) (id : GroupJoinId) : ctx.SamePlaces (ctx.rejectGroupJoin id) := by
  rw [rejectGroupJoin_eq]
  dsimp only
  split
  · exact .refl ctx
  · refine ((samePlaces_update ctx id _ (by simp) (by simp) (by simp)).trans
      (samePlaces_update _ _ _ (by simp) (by simp) (by simp))).trans (samePlaces_updateSource _ _ fun x => ?_)
    split <;> rfl

/-- Sources stay on their nodes when their groups are merged. -/
theorem samePlaces_mergeGroups (ctx : Context) (into other : GroupId) : ctx.SamePlaces (ctx.mergeGroups into other) := by
  rw [mergeGroups_eq]
  dsimp only
  split
  · exact .refl ctx
  · have hmerged := @samePlaces_update .group ctx other (fun _ => { mergedInto := some into }) (by simp) (by simp) (by simp)
    have hsources : ∀ (ctx : Context) (s : SourceId), ctx.SamePlaces (ctx.update s fun x => { x with group := some into }) :=
      fun ctx s => samePlaces_updateSource ctx s fun _ => rfl
    have hjoins : ∀ (ctx : Context) (j : GroupJoinId), ctx.SamePlaces (ctx.update j fun x => { x with group := into }) :=
      fun ctx j => @samePlaces_update .groupJoin ctx j _ (by simp) (by simp) (by simp)
    have htaken := (hmerged.trans (samePlaces_foldl hsources (ctx.groups.get other).tables _)).trans
      (samePlaces_foldl hjoins (ctx.groups.get other).joins _)
    exact htaken.trans (samePlaces_update _ into _ (by simp) (by simp) (by simp))

/-! ## Sources in the uses of their nodes -/

/-- The uses of each node are the sources on it, each once. Those that are just being copied are left out. -/
def Placed (pending : List SourceId) (ctx : Context) : Prop :=
  ∀ (n : NodeId) x, ctx.record? n = some x → x.uses.Nodup ∧
    ∀ r : SourceId, r ∈ x.uses ↔ r ∉ pending ∧ ∃ y : TableSource, ctx.record? r = some y ∧ y.node = n

/-- Everything that is kept: references lead to entities, trees hang together, and sources are in the uses of their nodes. -/
structure Tidy (T : Catalog.Table → Prop) (pending : List SourceId) (ctx : Context) : Prop where
  wellFormed : ctx.WellFormed
  hangs : ctx.Hangs T
  placed : ctx.Placed pending
  pendingHas : ∀ r ∈ pending, ctx.Has r

/-- Without trees, nodes and sources everything is tidy. -/
theorem tidy_withConfig (T : Catalog.Table → Prop) (config : Config) : (withConfig config).Tidy T [] := by
  refine ⟨wellFormed_withConfig config, ?_, ?_, ?_⟩
  · intro t z hz
    cases hz
  · intro n x hx
    cases hx
  · intro r hr
    cases hr

/-- Changes that leave all places keep a context tidy. -/
theorem Tidy.of_samePlaces (h : ctx.Tidy T pending) (hs : ctx.SamePlaces ctx') (hwf' : ctx'.WellFormed) :
    ctx'.Tidy T pending := by
  have htrees : ctx.SameTrees ctx' := ⟨hs.trees, fun n y hy => ⟨y, (hs.nodes n).symm.trans hy, rfl⟩⟩
  have hplace : ∀ (r : SourceId) (n : NodeId), (∃ y : TableSource, ctx'.record? r = some y ∧ y.node = n) ↔
      ∃ y : TableSource, ctx.record? r = some y ∧ y.node = n := by
    intro r n
    have hsame := hs.sources r
    rw [← Option.map_eq_some_iff, ← Option.map_eq_some_iff, hsame]
  refine ⟨hwf', h.hangs.of_sameTrees hwf' htrees, ?_, fun r hr => hs.grows r (h.pendingHas r hr)⟩
  intro n x hx
  simp only [hplace]
  exact h.placed n x ((hs.nodes n).symm.trans hx)

/-! ## Trees and nodes -/

/-- A new tree is empty, and the others stay tidy. -/
theorem Tidy.addTree (h : ctx.Tidy T pending) (group : Option Catalog.Group) : (ctx.addTree group).2.Tidy T pending := by
  refine ⟨h.wellFormed.addTree group, h.hangs.addTree group, ?_, fun r hr => (h.pendingHas r hr).insert _⟩
  -- nodes and sources are in the arenas that they were in
  exact h.placed

variable {tree : TreeId} {table : Catalog.Table} {parent : Option NodeId}

/-- A new node leaves the sources. -/
theorem record?_source_addNode (r : SourceId) : (ctx.addNode tree table parent).2.record? r = ctx.record? r := by
  rw [addNode_eq]
  refine (record?_update_of_ne _ (by simp)).trans ?_
  cases parent with
  | none => exact record?_withArena_of_ne ctx _ (by simp) r
  | some p => exact (record?_update_of_ne _ (by simp)).trans (record?_withArena_of_ne ctx _ (by simp) r)

/-- There is no source on a new node, and the others have the uses that they had. -/
theorem Placed.addNode (h : ctx.Placed pending) (hwf : ctx.WellFormed) (hp : ∀ p ∈ parent, ctx.Has p) :
    (ctx.addNode tree table parent).2.Placed pending := by
  intro n x hx
  simp only [record?_source_addNode]
  rcases record?_node_addNode hp hx with ⟨rfl, rfl⟩ | ⟨x', hx', -, -, huses, -⟩
  · refine ⟨List.nodup_nil, fun r => iff_of_false List.not_mem_nil ?_⟩
    rintro ⟨-, y, hy, hnode⟩
    have hhas : ctx.Has y.node := hwf.closed r y (has_of_record? hy) hy ⟨.node, y.node⟩ (by simp [EntityKind.references])
    exact ne_addNode_of_has hhas hnode
  · rw [huses]
    exact h n x' hx'

/-- Nodes that are looked for, or added without sources, keep the uses of nodes in step with the sources. -/
theorem Placed.nodeFor (h : ctx.Placed pending) (hwf : ctx.WellFormed) (ht : ctx.Has tree) (table : Catalog.Table) :
    (ctx.nodeFor tree table).2.Placed pending := by
  induction table with
  | root info =>
    unfold Context.nodeFor
    split
    · exact h
    · exact h.addNode hwf nofun
  | child info key above ih =>
    unfold Context.nodeFor
    split
    · exact h
    · obtain ⟨hwf₁, hin⟩ := hwf.nodeFor ht above
      refine ih.addNode hwf₁ fun p hp => ?_
      obtain rfl : (ctx.nodeFor tree above).1 = p := Option.some.inj hp
      exact hin.has

/-- A tree is asked for a table of its hierarchy. -/
theorem Tidy.nodeFor (hT : Catalog.Table.Identified T) (h : ctx.Tidy T pending) (ht : ctx.Has tree) (htable : T table)
    (hsame : ∀ a ∈ ctx.tablesOf tree, a.SameHierarchy table) : (ctx.nodeFor tree table).2.Tidy T pending :=
  ⟨(h.wellFormed.nodeFor ht table).1, (h.hangs.nodeFor hT h.wellFormed ht htable hsame).1,
    h.placed.nodeFor h.wellFormed ht table, fun r hr => has_nodeFor (h.pendingHas r hr) table⟩

/-! ## Sources -/

/-- A source is there, but not yet in the uses of its node. -/
theorem Tidy.insertSource (h : ctx.Tidy T pending) {x : EntityKind.source.Record}
    (hx : ∀ ref ∈ EntityKind.source.references x, (ctx.insert .source x).2.Has ref.2) :
    (ctx.insert .source x).2.Tidy T ((ctx.insert .source x).1 :: pending) := by
  have hwf := h.wellFormed.insert (by simp) (by simp) hx
  refine ⟨hwf, h.hangs.of_sameTrees hwf (sameTrees_withArena ctx _ (by simp) (by simp)), ?_, ?_⟩
  · intro n y hy
    replace hy := (record?_withArena_of_ne ctx _ (by simp) n).symm.trans hy
    obtain ⟨hnodup, hmem⟩ := h.placed n y hy
    refine ⟨hnodup, fun r => ?_⟩
    rw [hmem, List.mem_cons, not_or]
    constructor
    · rintro ⟨hr, z, hz, hnode⟩
      refine ⟨⟨?_, hr⟩, z, (record?_insert_of_has x (has_of_record? hz)).trans hz, hnode⟩
      rintro rfl
      exact Nat.lt_irrefl _ (has_of_record? hz)
    · rintro ⟨⟨hne, hr⟩, z, hz, hnode⟩
      rcases record?_insert_cases hz with hz | heq
      · exact ⟨hr, z, hz, hnode⟩
      · cases heq
        exact absurd rfl hne
  · intro r hr
    rcases List.mem_cons.1 hr with rfl | hr
    · exact has_insert_self ctx x
    · exact (h.pendingHas r hr).insert x

/-- A source that is not noted yet may still move. -/
theorem Tidy.moveSource (h : ctx.Tidy T pending) {r : SourceId} (hr : r ∈ pending) {y : TableSource}
    (hy : ∀ ref ∈ EntityKind.source.references y, ctx.Has ref.2) : (ctx.update r fun _ => y).Tidy T pending := by
  have hwf : (ctx.update r fun _ => y).WellFormed :=
    ⟨Closed.update h.wellFormed.closed fun _ _ _ => hy,
      h.wellFormed.shaped.of_sameTrees (sameTrees_withArena ctx _ (by simp) (by simp))⟩
  refine ⟨hwf, h.hangs.of_sameTrees hwf (sameTrees_withArena ctx _ (by simp) (by simp)), ?_,
    fun r' hr' => (has_update ctx r _ r').2 (h.pendingHas r' hr')⟩
  intro n x hx
  replace hx := (record?_withArena_of_ne ctx _ (by simp) n).symm.trans hx
  obtain ⟨hnodup, hmem⟩ := h.placed n x hx
  refine ⟨hnodup, fun r' => ?_⟩
  rw [hmem]
  refine and_congr_right fun hr' => ?_
  rw [record?_update_of_ne _ ?_]
  intro heq
  cases heq
  exact hr' hr

/-- A source is noted in the uses of its node. -/
theorem Tidy.noteSource {r : SourceId} (h : ctx.Tidy T (r :: pending)) (hr : r ∉ pending) {y : TableSource}
    (hy : ctx.record? r = some y) : (ctx.update y.node (·.addUse r)).Tidy T pending := by
  have hwf : (ctx.update y.node (·.addUse r)).WellFormed := h.wellFormed.addUse (has_of_record? hy)
  refine ⟨hwf, h.hangs.of_sameTrees hwf (sameTrees_addUse ctx y.node r), ?_,
    fun r' hr' => (has_update ctx y.node _ r').2 (h.pendingHas r' (List.mem_cons_of_mem r hr'))⟩
  intro n z hz
  obtain ⟨x, hx, hnodup, huses⟩ := record?_addUse hz
  refine ⟨hnodup (h.placed n x hx).1, fun r' => ?_⟩
  have hsource : (ctx.update y.node (·.addUse r)).record? r' = ctx.record? r' := record?_update_of_ne _ (by simp)
  rw [huses, (h.placed n x hx).2, hsource, List.mem_cons, not_or]
  constructor
  · rintro (⟨⟨-, hr'⟩, hplace⟩ | ⟨rfl, rfl⟩)
    · exact ⟨hr', hplace⟩
    · exact ⟨hr, y, hy, rfl⟩
  · rintro ⟨hr', w, hw, rfl⟩
    by_cases heq : r' = r
    · subst heq
      cases hy.symm.trans hw
      exact Or.inr ⟨rfl, rfl⟩
    · exact Or.inl ⟨⟨heq, hr'⟩, w, hw, rfl⟩

/-- What was in the context is in it after a source was added. -/
theorem has_addSource {r : Ref kind} (hr : ctx.Has r) (n : NodeId) (name : String) (required : Bool) :
    (ctx.addSource n name required).2.Has r := by
  rw [addSource_eq]
  exact (has_update _ n _ r).2 (hr.insert _)

/-- A new source is noted among the uses of its node, so that the context stays tidy. -/
theorem Tidy.addSource (h : ctx.Tidy T pending) {n : NodeId} (hn : ctx.Has n) (name : String) (required : Bool) :
    (ctx.addSource n name required).2.Tidy T pending := by
  rw [addSource_eq]
  have hins : ∀ ref ∈ EntityKind.source.references { node := n, name, required },
      (ctx.insert .source { node := n, name, required }).2.Has ref.2 := by
    simp only [EntityKind.references, List.forall_mem_cons]
    exact ⟨hn.insert _, by simp⟩
  refine (h.insertSource hins).noteSource (fun hmem => ?_) (record?_insert_self ctx _)
  exact Nat.lt_irrefl _ (h.pendingHas _ hmem)

end ClusterPlan.Context
