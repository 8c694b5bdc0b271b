import ClusterPlan.Proofs.Context.Placing
import ClusterPlan.Proofs.Duplication.Visits

/-!
# Sessions keep trees and places

The calls of a session keep a context tidy, whatever was done to the context between the calls: all that is needed is that what
the session has noted is still there (`Tended`). A tree is copied at once, with links of its own, and the copy of a source is
pending until its node has noted it.
-/

namespace ClusterPlan.Duplication

variable {kind : EntityKind} {T : Catalog.Table → Prop} {input : Context} {pending : List SourceId} {s s₁ s' : Duplication}
  {fuel : Nat}

/-! ## What a session has noted -/

/-- What is noted stays there when the context grows. -/
theorem Noted.of_same (h : s.Noted) (hentries : ∀ kind, kind ≠ .node → s'.entries kind = s.entries kind)
    (hgrows : ∀ ⦃kind : EntityKind⦄ (r : Ref kind), s.ctx.Has r → s'.ctx.Has r) : s'.Noted := by
  intro kind hn a ha
  rw [hentries kind hn] at ha
  obtain ⟨hold, hnew⟩ := h hn a ha
  exact ⟨hgrows _ hold, hgrows _ hnew⟩

/-- Entering a copy notes what is in the context. -/
theorem Noted.enter (h : s.Noted) (ht : kind ≠ .tree) (hn : kind ≠ .node) {old : Ref kind} (hold : s.ctx.Has old)
    (x : kind.Record) : (s.enter kind old x).Noted := by
  have hbefore : ∀ {kind' : EntityKind}, kind' ≠ .node → ∀ a ∈ s.entries kind',
      (s.enter kind old x).ctx.Has a.1 ∧ (s.enter kind old x).ctx.Has a.2 := by
    intro kind' hn' a ha
    obtain ⟨hold, hnew⟩ := h hn' a ha
    exact ⟨hold.insert x, hnew.insert x⟩
  intro kind' hn' a ha
  by_cases hk : kind' = kind
  · subst hk
    rw [entries_enter s old x ht hn] at ha
    rcases List.mem_cons.1 ha with rfl | ha
    · exact ⟨hold.insert x, Context.has_insert_self s.ctx x⟩
    · exact hbefore hn' a ha
  · rw [entries_enter_of_ne s old x ht hn hk] at ha
    exact hbefore hn' a ha

variable {old : TreeId} {t : TableTree}

/-- What was in the context is in it after a tree was copied. -/
theorem has_enterTree (s : Duplication) (old : TreeId) (t : TableTree) {r : Ref kind} (hr : s.ctx.Has r) :
    (s.enterTree old t).ctx.Has r := by
  obtain ⟨x, hx⟩ := Context.exists_record? hr
  exact Context.has_of_record? ((record?_enterTree_of_has s old t hr).trans hx)

/-- A copied tree is noted with a copy that is in the context. -/
theorem Noted.enterTree (h : s.Noted) (ht : s.ctx.record? old = some t) : (s.enterTree old t).Noted := by
  have hbefore : ∀ {kind' : EntityKind}, kind' ≠ .node → ∀ a ∈ s.entries kind',
      (s.enterTree old t).ctx.Has a.1 ∧ (s.enterTree old t).ctx.Has a.2 := by
    intro kind' hn' a ha
    obtain ⟨hold, hnew⟩ := h hn' a ha
    exact ⟨has_enterTree s old t hold, has_enterTree s old t hnew⟩
  intro kind' hn' a ha
  by_cases hk : kind' = .tree
  · subst hk
    rcases List.mem_cons.1 ha with rfl | ha
    · exact ⟨has_enterTree s old t (Context.has_of_record? ht), Context.has_of_record? (record?_tree_enterTree_self s old t)⟩
    · exact hbefore hn' a ha
  · rw [entries_enterTree_of_ne s old t hk hn'] at ha
    exact hbefore hn' a ha

/-! ## Copies of trees -/

/-- The nodes of a copied tree are in the order of the originals. -/
theorem relink_lt_relink {nodes : List NodeId} (hsorted : nodes.Pairwise fun n m => n.index < m.index) (start : Nat)
    {n m : NodeId} (hn : n ∈ nodes) (hm : m ∈ nodes) (hlt : n.index < m.index) :
    (relink nodes start n).index < (relink nodes start m).index := by
  have hnodup : nodes.Nodup := hsorted.imp fun hlt heq => Nat.ne_of_lt hlt (congrArg Ref.index heq)
  obtain ⟨i, hi, rfl⟩ := List.mem_iff_getElem.1 hn
  obtain ⟨j, hj, rfl⟩ := List.mem_iff_getElem.1 hm
  rw [relink_of_getElem? hnodup (List.getElem?_eq_getElem hi), relink_of_getElem? hnodup (List.getElem?_eq_getElem hj)]
  rcases Nat.lt_or_ge i j with hij | hji
  · exact Nat.add_lt_add_left hij start
  · rcases Nat.eq_or_lt_of_le hji with rfl | hji
    · exact absurd hlt (Nat.lt_irrefl _)
    · exact absurd hlt (Nat.lt_asymm (List.pairwise_iff_getElem.1 hsorted j i hj hi hji))

/-- In the copy of a tree the tables hang as in the tree. -/
theorem hangs_enterTree (h : s.ctx.Hangs T) (hwf : s.ctx.WellFormed) (ht : s.ctx.record? old = some t) :
    (s.enterTree old t).ctx.Hangs T := by
  intro a z hz
  rcases record?_tree_enterTree_cases s old t hz with hz | ⟨rfl, rfl⟩
  · refine (h a z hz).congr fun n hn => ?_
    have hn' := (record?_enterTree_of_has s old t (hwf.has_node hz hn)).trans (hwf.record?_get hz hn)
    have hget : (s.enterTree old t).ctx.nodes.get n = s.ctx.nodes.get n := Arena.get_of_get? _ hn'
    rw [hget]
    exact ⟨rfl, rfl, rfl⟩
  · refine (h old t ht).of_links rfl rfl ?_ fun n hn => ?_
    · intro n hn m hm hlt
      exact relink_lt_relink (h old t ht).sorted _ hn hm hlt
    · have hget : (s.enterTree old t).ctx.nodes.get (relink t.nodes s.ctx.nodes.size n) = _ :=
        Arena.get_of_get? _ (record?_relink_enterTree hwf ht hn)
      rw [hget]
      exact ⟨rfl, rfl, rfl⟩

/-- There is no source on a copied node yet. -/
theorem placed_enterTree (h : s.ctx.Placed pending) (hwf : s.ctx.WellFormed) (old : TreeId) (t : TableTree) :
    (s.enterTree old t).ctx.Placed pending := by
  intro n x hx
  have hsources : ∀ r : SourceId, (s.enterTree old t).ctx.record? r = s.ctx.record? r := fun _ => rfl
  simp only [hsources]
  rcases record?_node_enterTree_cases s old t hx with hx | ⟨i, m, -, rfl, rfl⟩
  · exact h n x hx
  · refine ⟨List.nodup_nil, fun r => iff_of_false List.not_mem_nil ?_⟩
    rintro ⟨-, y, hy, hnode⟩
    have hhas : s.ctx.Has y.node :=
      hwf.closed r y (Context.has_of_record? hy) hy ⟨.node, y.node⟩ (by simp [EntityKind.references])
    rw [hnode] at hhas
    exact Nat.not_lt.2 (Nat.le_add_right _ _) hhas

/-- Copying a tree keeps the context tidy: its nodes have no sources yet. -/
theorem tidy_enterTree (h : s.ctx.Tidy T pending) (ht : s.ctx.record? old = some t) :
    (s.enterTree old t).ctx.Tidy T pending :=
  ⟨wellFormed_enterTree h.wellFormed ht, hangs_enterTree h.hangs h.wellFormed ht, placed_enterTree h.placed h.wellFormed old t,
    fun r hr => has_enterTree s old t (h.pendingHas r hr)⟩

/-! ## Steps -/

/-- The context is tidy, and it holds what the session has noted and what a call started from. -/
structure Tended (T : Catalog.Table → Prop) (input : Context) (pending : List SourceId) (s : Duplication) : Prop where
  tidy : s.ctx.Tidy T pending
  noted : s.Noted
  kept : input.KeepsBare s.ctx

namespace Tended

/-- What a call started from is still there. -/
theorem has (h : Tended T input pending s) {r : Ref kind} (hr : input.Has r) : s.ctx.Has r := h.kept.has hr

/-- What an entity refers to. -/
theorem has_references (h : Tended T input pending s) {r : Ref kind} {x : kind.Record} (hx : s.ctx.record? r = some x) :
    ∀ ref ∈ kind.references x, s.ctx.Has ref.2 :=
  h.tidy.wellFormed.closed r x (Context.has_of_record? hx) hx

/-- Calls that an entity makes while it is copied start from the state before its copy was entered. -/
theorem enter (h : Tended T input pending s) (ht : kind ≠ .tree) (hn : kind ≠ .node) (hs : kind ≠ .source) {old : Ref kind}
    {x : kind.Record} (hx : s.ctx.record? old = some x) : Tended T s.ctx pending (s.enter kind old x) := by
  refine ⟨h.tidy.of_samePlaces (Context.samePlaces_insert s.ctx x ht hn hs) ?_,
    h.noted.enter ht hn (Context.has_of_record? hx) x, keepsBare_insert s.ctx x⟩
  exact h.tidy.wellFormed.insert ht hn fun ref href => (h.has_references hx ref href).insert x

/-- The copy of a source is pending until it is noted on its node. -/
theorem enterSource (h : Tended T input pending s) {old : SourceId} {x : EntityKind.source.Record}
    (hx : s.ctx.record? old = some x) :
    Tended T s.ctx ((s.ctx.insert .source x).1 :: pending) (s.enter .source old x) :=
  ⟨h.tidy.insertSource fun ref href => (h.has_references hx ref href).insert x,
    h.noted.enter (by simp) (by simp) (Context.has_of_record? hx) x, keepsBare_insert s.ctx x⟩

/-- The end of a call for an entity other than a source. -/
theorem finish (h : Tended T input pending s) (h₁ : Tended T s.ctx pending s₁) (hext : s.Extends s₁) (ht : kind ≠ .tree)
    (hn : kind ≠ .node) (hs : kind ≠ .source) {new : Ref kind} {y : kind.Record} (hnew : ¬s.ctx.Has new)
    (hnew₁ : s₁.ctx.Has new) (hy : ∀ ref ∈ kind.references y, s₁.ctx.Has ref.2) :
    Tended T input pending (s₁.change new fun _ => y) ∧ s.Extends (s₁.change new fun _ => y) ∧
      (s₁.change new fun _ => y).ctx.Has new := by
  have hlater := hext.change ht hnew fun _ => y
  have hsame := Context.samePlaces_update s₁.ctx new (fun _ => y) ht hn hs
  have hwf : (s₁.change new fun _ => y).ctx.WellFormed :=
    ⟨Context.Closed.update h₁.tidy.wellFormed.closed fun _ _ _ => hy,
      h₁.tidy.wellFormed.shaped.of_sameTrees (Context.sameTrees_withArena s₁.ctx _ ht hn)⟩
  exact ⟨⟨h₁.tidy.of_samePlaces hsame hwf, h₁.noted.of_same (fun kind _ => entries_change s₁ new _ ht kind) hsame.grows,
    h.kept.trans hlater.kept⟩, hlater, hsame.grows _ hnew₁⟩

/-- The end of a call for a source: it gets its place, and its node notes it. -/
theorem finishSource {new : SourceId} (h : Tended T input pending s) (h₁ : Tended T s.ctx (new :: pending) s₁)
    (hext : s.Extends s₁) {y : EntityKind.source.Record} (hnew : ¬s.ctx.Has new)
    (hy : ∀ ref ∈ EntityKind.source.references y, s₁.ctx.Has ref.2) :
    Tended T input pending ((s₁.change new fun _ => y).change y.node (·.addUse new)) ∧
      s.Extends ((s₁.change new fun _ => y).change y.node (·.addUse new)) ∧
      ((s₁.change new fun _ => y).change y.node (·.addUse new)).ctx.Has new := by
  have hlater := (hext.change (by simp) hnew fun _ => y).trans (extends_addUse _ y.node new)
  have hnew₁ : s₁.ctx.Has new := h₁.tidy.pendingHas new List.mem_cons_self
  have hgrows : ∀ ⦃kind : EntityKind⦄ (r : Ref kind), s₁.ctx.Has r →
      ((s₁.change new fun _ => y).change y.node (·.addUse new)).ctx.Has r :=
    fun kind r hr => (Context.has_update _ y.node _ r).2 ((Context.has_update s₁.ctx new _ r).2 hr)
  have hmoved := h₁.tidy.moveSource List.mem_cons_self hy
  have hfresh : new ∉ pending := fun hmem => hnew (h.tidy.pendingHas new hmem)
  refine ⟨⟨hmoved.noteSource hfresh (record?_change_self hnew₁ y), ?_, h.kept.trans hlater.kept⟩, hlater, hgrows _ hnew₁⟩
  refine h₁.noted.of_same (fun kind _ => ?_) hgrows
  exact (entries_change _ y.node _ (by simp) kind).trans (entries_change s₁ new _ (by simp) kind)

/-- Numbers change nothing about what is tidy or noted. -/
theorem renumber (h : Tended T input pending s) (next : Int) (planNodes : List (Int × Int)) (used : List Int)
    (conditions : List (ConditionId × ConditionId)) : Tended T input pending (s.renumber next planNodes used conditions) :=
  ⟨h.tidy, h.noted.of_same (fun kind _ => by cases kind <;> rfl) fun _ _ hr => hr, h.kept⟩

/-- Noting conditions for a join changes nothing about what is tidy or noted. -/
theorem register (h : Tended T input pending s) (conditions : List ConditionId) (join : GroupJoinId) :
    Tended T input pending (s.register conditions join) ∧ s.Extends (s.register conditions join) := by
  have hsame := Context.samePlaces_registerConditions s.ctx conditions join
  have hext := extends_register s conditions join
  exact ⟨⟨h.tidy.of_samePlaces hsame (h.tidy.wellFormed.registerConditions conditions join),
    h.noted.of_same (fun kind _ => by cases kind <;> rfl) hsame.grows, h.kept.trans hext.kept⟩, hext⟩

end Tended

/-! ## Numbers -/

/-- The call for a condition keeps a session tended. -/
theorem tended_condition (c : ConditionId) :
    Keeps (Tended T input pending) (condition c) fun s new => s.CopiesCondition c new := by
  intro s h
  rw [condition_eq]
  cases hl : s.conditions.lookup c with
  | some new => exact ⟨h, .refl s, mem_of_lookup hl⟩
  | none =>
    exact ⟨h.renumber _ _ _ _, extends_renumber (Int.le_of_lt (Int.lt_succ _)) (List.Subset.refl _) (List.Subset.refl _)
      (List.subset_cons_self _ _), List.mem_cons_self⟩

theorem tended_conditions (cs : List ConditionId) : Keeps (Tended T input pending) (cs.mapM condition) fun s news =>
    List.Forall₂ s.CopiesCondition cs news :=
  Keeps.mapM (R := fun s old new => s.CopiesCondition old new) (fun _ _ _ _ hext hc => hext.copiesCondition hc)
    fun c _ => tended_condition c

/-- Conditions are copied, and the copies belong to a group join. -/
theorem Tended.registerCopies (h : Tended T input pending s) (cs : List ConditionId) (join : GroupJoinId) :
    Tended T input pending ((cs.mapM condition s).2.register (cs.mapM condition s).1 join) ∧
      s.Extends ((cs.mapM condition s).2.register (cs.mapM condition s).1 join) := by
  obtain ⟨h₁, hext₁, -⟩ := tended_conditions cs s h
  obtain ⟨h₂, hext₂⟩ := h₁.register (cs.mapM condition s).1 join
  exact ⟨h₂, hext₁.trans hext₂⟩

theorem tended_nodeNumber (id : Int) : Keeps (Tended T input pending) (nodeNumber id) fun _ _ => True := by
  intro s h
  rw [nodeNumber_eq]
  cases s.planNodes.lookup id with
  | some new => exact ⟨h, .refl s, trivial⟩
  | none =>
    exact ⟨h.renumber _ _ _ _, extends_renumber (Int.le_of_lt (Int.lt_succ _)) (List.subset_cons_self _ _)
      (List.Subset.refl _) (List.Subset.refl _), trivial⟩

theorem tended_copyNumber (id : Int) : Keeps (Tended T input pending) (copyNumber id) fun _ _ => True := by
  intro s h
  obtain ⟨h₁, hext, -⟩ := tended_nodeNumber id s h
  rw [copyNumber_eq]
  dsimp only
  split
  · exact ⟨h₁.renumber _ _ _ _, hext.trans (extends_renumber (Int.le_of_lt (Int.lt_succ _)) (List.Subset.refl _)
      (List.Subset.refl _) (List.Subset.refl _)), trivial⟩
  · exact ⟨h₁.renumber _ _ _ _, hext.trans (extends_renumber (Int.le_refl _) (List.Subset.refl _)
      (List.subset_cons_self _ _) (List.Subset.refl _)), trivial⟩

/-! ## Calls for entities -/

/-- The call for a tree keeps a session tended and answers with a tree. -/
theorem tended_tree {old : TreeId} (hold : input.Has old) :
    Keeps (Tended T input pending) (tree old) fun s new => s.ctx.Has new := by
  intro s h
  rw [tree_eq]
  cases hl : s.trees.lookup old with
  | some new => exact ⟨h, .refl s, (@h.noted .tree (by simp) _ (mem_of_lookup hl)).2⟩
  | none =>
    have ht := Context.record?_get_tree (h.has hold)
    have hext := h.noted.extends_enterTree ht
    exact ⟨⟨tidy_enterTree h.tidy ht, h.noted.enterTree ht, h.kept.trans hext.kept⟩, hext,
      Context.has_of_record? (record?_tree_enterTree_self s old _)⟩

/-- A node is in the list of its tree, so no node is copied alone. -/
theorem tended_node {old : NodeId} (hold : input.Has old) :
    Keeps (Tended T input pending) (node old) fun s new => s.ctx.Has new := by
  intro s h
  obtain ⟨x, hx⟩ := Context.exists_record? (h.has hold)
  have hget : s.ctx.nodes.get old = x := Arena.get_of_get? _ hx
  have htree : s.ctx.Has x.tree := h.tidy.wellFormed.has_tree hx
  obtain ⟨h₁, hext, hnew⟩ := tended_tree htree s ⟨h.tidy, h.noted, .refl _⟩
  obtain ⟨x₁, hx₁, hbare⟩ := hext.kept old x hx
  simp only [EntityKind.bare, TableNode.mk.injEq] at hbare
  have hlisted : old ∈ ((tree x.tree s).2.ctx.trees.get x.tree).nodes := by
    refine h₁.tidy.wellFormed.shaped.listed old x₁ _ hx₁ ?_
    rw [hbare.1]
    exact Context.record?_get_tree (hext.kept.has htree)
  obtain ⟨i, hi⟩ : ∃ i, ((tree x.tree s).2.ctx.trees.get x.tree).position? old = some i := by
    rw [← Option.isSome_iff_exists, TableTree.position?, List.findIdx?_isSome, List.any_eq_true]
    exact ⟨old, hlisted, by simp⟩
  rw [node_eq]
  dsimp only
  rw [hget, hi]
  refine ⟨⟨h₁.tidy, h₁.noted, h.kept.trans hext.kept⟩, hext, ?_⟩
  dsimp only
  -- nodes may have been added to the copied tree or to its original since
  cases hm : ((tree x.tree s).2.ctx.trees.get (tree x.tree s).1).nodes[i]? with
  | none => exact hext.kept.has (Context.has_of_record? hx)
  | some m => exact h₁.tidy.wellFormed.has_node (Context.record?_get_tree hnew) (List.mem_of_getElem? hm)

/-- The calls with some fuel keep a session tended. If there is none left, they answer with what they are given. -/
structure CallsTend (T : Catalog.Table → Prop) (fuel : Nat) : Prop where
  source : ∀ input pending (old : SourceId), input.Has old →
    Keeps (Tended T input pending) (sourceWith fuel old) fun s new => s.ctx.Has new
  group : ∀ input pending (old : GroupId), input.Has old →
    Keeps (Tended T input pending) (groupWith fuel old) fun s new => s.ctx.Has new
  groupJoin : ∀ input pending (old : GroupJoinId), input.Has old →
    Keeps (Tended T input pending) (groupJoinWith fuel old) fun s new => s.ctx.Has new

/-- The call for a source keeps a session tended if the calls of less fuel do. -/
theorem CallsTend.source_succ (ih : CallsTend T fuel) {old : SourceId} (hold : input.Has old) :
    Keeps (Tended T input pending) (sourceWith (fuel + 1) old) fun s new => s.ctx.Has new := by
  intro s hs
  rw [sourceWith_succ]
  cases hl : s.sources.lookup old with
  | some new => exact ⟨hs, .refl s, (@hs.noted .source (by simp) _ (mem_of_lookup hl)).2⟩
  | none =>
    obtain ⟨x, hx⟩ := Context.exists_record? (hs.has hold)
    have hget : s.ctx.sources.get old = x := Arena.get_of_get? _ hx
    have hrefs := hs.has_references hx
    simp only [EntityKind.references, List.forall_mem_cons, List.forall_mem_append, List.forall_mem_map,
      Option.mem_toList] at hrefs
    obtain ⟨hnode, hgroup, hjoin⟩ := hrefs
    obtain ⟨h₁, hext₁, hn⟩ := tended_node hnode _ (hs.enterSource hx)
    obtain ⟨h₂, hext₂, hg⟩ := Keeps.mapM_option (R := fun s _ new => s.ctx.Has new)
      (fun g hg => ih.group _ _ g (hgroup g hg)) _ h₁
    obtain ⟨h₃, hext₃, hj⟩ := Keeps.mapM_option (R := fun s _ new => s.ctx.Has new)
      (fun j hj => ih.groupJoin _ _ j (hjoin j hj)) _ h₂
    dsimp only
    rw [hget]
    have hext := (hext₁.trans hext₂).trans hext₃
    refine hs.finishSource h₃ ((extends_enter s old x (by simp) (by simp)).trans hext) (not_has_insert_self s.ctx x) ?_
    simp only [EntityKind.references, List.forall_mem_cons, List.forall_mem_append, List.forall_mem_map]
    refine ⟨(hext₂.trans hext₃).kept.has hn, fun g hmem => ?_, fun j hmem => ?_⟩
    · obtain ⟨-, hg'⟩ := exists_of_optionRel hg hmem
      exact hext₃.kept.has hg'
    · obtain ⟨-, hj'⟩ := exists_of_optionRel hj hmem
      exact hj'

theorem CallsTend.group_succ (ih : CallsTend T fuel) {old : GroupId} (hold : input.Has old) :
    Keeps (Tended T input pending) (groupWith (fuel + 1) old) fun s new => s.ctx.Has new := by
  intro s hs
  rw [groupWith_succ]
  cases hl : s.groups.lookup old with
  | some new => exact ⟨hs, .refl s, (@hs.noted .group (by simp) _ (mem_of_lookup hl)).2⟩
  | none =>
    obtain ⟨g, hg⟩ := Context.exists_record? (hs.has hold)
    have hget : s.ctx.groups.get old = g := Arena.get_of_get? _ hg
    have hrefs := hs.has_references hg
    simp only [EntityKind.references, List.forall_mem_append, List.forall_mem_map, Option.mem_toList] at hrefs
    obtain ⟨⟨htables, hjoins⟩, hmerged⟩ := hrefs
    have henter := hs.enter (by simp) (by simp) (by simp) hg
    -- The answers of earlier calls are still in the context when the later ones are done.
    have hlater : ∀ {kind : EntityKind} (s s' : Duplication) (_ b : Ref kind), s.Extends s' → s.ctx.Has b → s'.ctx.Has b :=
      fun _ _ _ _ hext hb => hext.kept.has hb
    obtain ⟨h₁, hext₁, ht⟩ := Keeps.mapM (R := fun s _ new => s.ctx.Has new) hlater
      (fun t ht => ih.source _ _ t (htables t ht)) _ henter
    obtain ⟨h₂, hext₂, hj⟩ := Keeps.mapM (R := fun s _ new => s.ctx.Has new) hlater
      (fun j hj => ih.groupJoin _ _ j (hjoins j hj)) _ h₁
    obtain ⟨h₃, hext₃, hm⟩ := Keeps.mapM_option (R := fun s _ new => s.ctx.Has new)
      (fun m hm => ih.group _ _ m (hmerged m hm)) _ h₂
    dsimp only
    rw [hget]
    have hext := (hext₁.trans hext₂).trans hext₃
    refine hs.finish h₃ ((extends_enter s old g (by simp) (by simp)).trans hext) (by simp) (by simp) (by simp)
      (not_has_insert_self s.ctx g) (hext.kept.has (Context.has_insert_self s.ctx g)) ?_
    simp only [EntityKind.references, List.forall_mem_append, List.forall_mem_map]
    refine ⟨⟨fun t hmem => ?_, fun j hmem => ?_⟩, fun m hmem => ?_⟩
    · obtain ⟨-, ht'⟩ := exists_of_forall₂ ht hmem
      exact (hext₂.trans hext₃).kept.has ht'
    · obtain ⟨-, hj'⟩ := exists_of_forall₂ hj hmem
      exact hext₃.kept.has hj'
    · obtain ⟨-, hm'⟩ := exists_of_optionRel hm hmem
      exact hm'

theorem CallsTend.groupJoin_succ (ih : CallsTend T fuel) {old : GroupJoinId} (hold : input.Has old) :
    Keeps (Tended T input pending) (groupJoinWith (fuel + 1) old) fun s new => s.ctx.Has new := by
  intro s hs
  rw [groupJoinWith_succ]
  cases hl : s.groupJoins.lookup old with
  | some new => exact ⟨hs, .refl s, (@hs.noted .groupJoin (by simp) _ (mem_of_lookup hl)).2⟩
  | none =>
    obtain ⟨j, hj⟩ := Context.exists_record? (hs.has hold)
    have hget : s.ctx.groupJoins.get old = j := Arena.get_of_get? _ hj
    have hrefs := hs.has_references hj
    simp only [EntityKind.references, List.forall_mem_cons] at hrefs
    obtain ⟨hgroup, hparent, hchild, -⟩ := hrefs
    have henter := hs.enter (by simp) (by simp) (by simp) hj
    obtain ⟨h₁, hext₁, hg⟩ := ih.group _ _ j.group hgroup _ henter
    obtain ⟨h₂, hext₂, hp⟩ := ih.source _ _ j.parent hparent _ h₁
    obtain ⟨h₃, hext₃, hc⟩ := ih.source _ _ j.child hchild _ h₂
    obtain ⟨h₄, hext₄⟩ := h₃.registerCopies j.conditions (s.ctx.insert .groupJoin j).1
    dsimp only
    rw [hget]
    have hext := ((hext₁.trans hext₂).trans hext₃).trans hext₄
    refine hs.finish h₄ ((extends_enter s old j (by simp) (by simp)).trans hext) (by simp) (by simp) (by simp)
      (not_has_insert_self s.ctx j) (hext.kept.has (Context.has_insert_self s.ctx j)) ?_
    simp only [EntityKind.references, List.forall_mem_cons]
    exact ⟨((hext₂.trans hext₃).trans hext₄).kept.has hg, (hext₃.trans hext₄).kept.has hp, hext₄.kept.has hc, by simp⟩

/-- Calls of every fuel keep a session tended. -/
theorem callsTend (T : Catalog.Table → Prop) (fuel : Nat) : CallsTend T fuel := by
  induction fuel with
  | zero => exact ⟨fun _ _ _ hold s hs => ⟨hs, .refl s, hs.has hold⟩, fun _ _ _ hold s hs => ⟨hs, .refl s, hs.has hold⟩,
      fun _ _ _ hold s hs => ⟨hs, .refl s, hs.has hold⟩⟩
  | succ fuel ih => exact ⟨fun _ _ _ hold => ih.source_succ hold, fun _ _ _ hold => ih.group_succ hold,
      fun _ _ _ hold => ih.groupJoin_succ hold⟩

/-- The call for a source keeps a session tended. -/
theorem tended_source {old : SourceId} (hold : input.Has old) :
    Keeps (Tended T input pending) (source old) fun s new => s.ctx.Has new :=
  fun s => (callsTend T s.fuel).source input pending old hold s

theorem tended_keyJoin {old : KeyJoinId} (hold : input.Has old) :
    Keeps (Tended T input pending) (keyJoin old) fun s new => s.ctx.Has new := by
  intro s hs
  rw [keyJoin_eq]
  cases hl : s.keyJoins.lookup old with
  | some new => exact ⟨hs, .refl s, (@hs.noted .keyJoin (by simp) _ (mem_of_lookup hl)).2⟩
  | none =>
    obtain ⟨j, hj⟩ := Context.exists_record? (hs.has hold)
    have hget : s.ctx.keyJoins.get old = j := Arena.get_of_get? _ hj
    have hrefs := hs.has_references hj
    simp only [EntityKind.references, List.forall_mem_cons] at hrefs
    obtain ⟨hparent, hchild, -⟩ := hrefs
    obtain ⟨h₁, hext₁, hp⟩ := tended_source hparent _ (hs.enter (by simp) (by simp) (by simp) hj)
    obtain ⟨h₂, hext₂, hc⟩ := tended_source hchild _ h₁
    obtain ⟨h₃, hext₃, -⟩ := tended_conditions j.conditions _ h₂
    dsimp only
    rw [hget]
    have hext := (hext₁.trans hext₂).trans hext₃
    refine hs.finish h₃ ((extends_enter s old j (by simp) (by simp)).trans hext) (by simp) (by simp) (by simp)
      (not_has_insert_self s.ctx j) (hext.kept.has (Context.has_insert_self s.ctx j)) ?_
    simp only [EntityKind.references, List.forall_mem_cons]
    exact ⟨(hext₂.trans hext₃).kept.has hp, hext₃.kept.has hc, by simp⟩

/-- An entity that refers to nothing is finished when it is entered. -/
theorem Tended.enterWhole (h : Tended T input pending s) (ht : kind ≠ .tree) (hn : kind ≠ .node) (hs : kind ≠ .source)
    {old : Ref kind} {x : kind.Record} (hx : s.ctx.record? old = some x) :
    Tended T input pending (s.enter kind old x) ∧ s.Extends (s.enter kind old x) ∧
      (s.enter kind old x).ctx.Has (s.ctx.insert kind x).1 := by
  have hentered := h.enter ht hn hs hx
  exact ⟨⟨hentered.tidy, hentered.noted, h.kept.trans hentered.kept⟩, extends_enter s old x ht hn,
    Context.has_insert_self s.ctx x⟩

theorem tended_hashTable {old : HashTableId} (hold : input.Has old) :
    Keeps (Tended T input pending) (hashTable old) fun s new => s.ctx.Has new := by
  intro s hs
  rw [hashTable_eq]
  cases hl : s.hashTables.lookup old with
  | some new => exact ⟨hs, .refl s, (@hs.noted .hashTable (by simp) _ (mem_of_lookup hl)).2⟩
  | none =>
    obtain ⟨t, ht⟩ := Context.exists_record? (hs.has hold)
    have hget : s.ctx.hashTables.get old = t := Arena.get_of_get? _ ht
    dsimp only
    rw [hget]
    exact hs.enterWhole (by simp) (by simp) (by simp) ht

theorem tended_bloomFilter {old : BloomFilterId} (hold : input.Has old) :
    Keeps (Tended T input pending) (bloomFilter old) fun s new => s.ctx.Has new := by
  intro s hs
  rw [bloomFilter_eq]
  cases hl : s.bloomFilters.lookup old with
  | some new => exact ⟨hs, .refl s, (@hs.noted .bloomFilter (by simp) _ (mem_of_lookup hl)).2⟩
  | none =>
    obtain ⟨f, hf⟩ := Context.exists_record? (hs.has hold)
    have hget : s.ctx.bloomFilters.get old = f := Arena.get_of_get? _ hf
    dsimp only
    rw [hget]
    exact hs.enterWhole (by simp) (by simp) (by simp) hf

/-- Every call for an entity keeps a session tended. -/
theorem tended_entity {r : Ref kind} (hr : input.Has r) :
    Keeps (Tended T input pending) (entity kind r) fun s new => s.ctx.Has new := by
  cases kind with
  | tree => exact tended_tree hr
  | node => exact tended_node hr
  | source => exact tended_source hr
  | group => exact fun s => (callsTend T s.fuel).group input pending r hr s
  | groupJoin => exact fun s => (callsTend T s.fuel).groupJoin input pending r hr s
  | keyJoin => exact tended_keyJoin hr
  | hashTable => exact tended_hashTable hr
  | bloomFilter => exact tended_bloomFilter hr

/-- So does the call for a mention. -/
theorem keepsCall_tended {m : Mention} (hm : ∀ ref, m = .entity ref → input.Has ref.2) :
    KeepsCall (Tended T input pending) m := by
  cases m with
  | planNode id => exact tended_copyNumber id
  | column id => exact tended_nodeNumber id
  | condition c => exact tended_condition c
  | entity ref =>
    intro s hs
    obtain ⟨h₁, hext, -⟩ := tended_entity (hm ref rfl) s hs
    exact ⟨h₁, hext, trivial⟩

end ClusterPlan.Duplication
