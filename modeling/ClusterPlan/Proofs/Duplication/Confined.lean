import ClusterPlan.Proofs.Context.Registered
import ClusterPlan.Proofs.Duplication.Session
import Mathlib.Logic.Relation

/-!
# What a call copies and what it registers

A call copies only what the entity that it is given leads to: the originals stay in every set of entities that no reference
leads out of, uses of nodes apart (`ClosedBare`). Of the conditions it registers those of the group joins that it copies, so a
condition is still noted for exactly the group joins that have it (`Confined`, `Session.registered`).
-/

namespace ClusterPlan

/-- Entities of a context that the references of its entities do not lead out of. The uses of a node are not followed. -/
structure Context.ClosedBare (ctx : Context) (P : AnyRef → Prop) : Prop where
  has : ∀ ref, P ref → ctx.Has ref.2
  references : ∀ ⦃kind : EntityKind⦄ (r : Ref kind) (x : kind.Record), P ⟨kind, r⟩ → ctx.record? r = some x →
    ∀ ref ∈ kind.references (kind.bare x), P ref

/-- One entity refers to another one. The uses of a node do not count. -/
def Context.Refers (ctx : Context) (a b : AnyRef) : Prop :=
  ∃ x, ctx.record? a.2 = some x ∧ b ∈ a.1.references (a.1.bare x)

/-- References do not lead out of what some entities lead to. -/
theorem Context.closedBare_reached {ctx : Context} {roots : AnyRef → Prop} (hctx : ctx.Closed)
    (hhas : ∀ a, roots a → ctx.Has a.2) : ctx.ClosedBare fun b => ∃ a, roots a ∧ Relation.ReflTransGen ctx.Refers a b := by
  constructor
  · rintro ref ⟨a, ha, har⟩
    induction har with
    | refl => exact hhas a ha
    | tail _ hab ih =>
      obtain ⟨x, hx, href⟩ := hab
      exact hctx _ x (Context.has_of_record? hx) hx _ (EntityKind.references_bare href)
  · rintro kind r x ⟨a, ha, har⟩ hx ref href
    exact ⟨a, ha, har.tail ⟨x, hx, href⟩⟩

namespace Duplication

variable {kind : EntityKind} {s₀ s s' : Duplication} {input : Context} {P : AnyRef → Prop} {pending : List AnyRef} {fuel : Nat}
  {α : Type}

/-- All originals are of a set, and conditions are noted for exactly the group joins that have them, pending copies apart. -/
structure Confined (P : AnyRef → Prop) (pending : List AnyRef) (s : Duplication) : Prop where
  originals : ∀ ⦃kind : EntityKind⦄ (old new : Ref kind), s.Copies old new → P ⟨kind, old⟩
  registered : s.ctx.Registered pending

/-! ## The steps -/

/-- A step that enters no copy and leaves the conditions keeps a session confined. -/
theorem Confined.of_same (h : Confined P pending s) (he : ∀ kind, s'.entries kind = s.entries kind)
    (hs : s.ctx.SameConditions s'.ctx) : Confined P pending s' := by
  refine ⟨fun kind old new hc => h.originals old new ?_, h.registered.of_same hs⟩
  rwa [Copies, he] at hc

/-- A group join has its conditions as before when another entity is added. -/
theorem hasCondition_insert {ctx : Context} {x : kind.Record} {j : GroupJoinId} (hj : (⟨.groupJoin, j⟩ : AnyRef) ≠
    ⟨kind, (ctx.insert kind x).1⟩) (c : ConditionId) : (ctx.insert kind x).2.HasCondition j c ↔ ctx.HasCondition j c := by
  have hrecord : (ctx.insert kind x).2.record? j = ctx.record? j := by
    by_cases hk : kind = .groupJoin
    · subst hk
      rw [Context.record?_insert, if_neg (by simpa using hj)]
    · exact Context.record?_insert_of_ne ctx x (Ne.symm hk) j
  rw [Context.HasCondition, hrecord, Context.HasCondition]

/-- An entity of the set gets a copy, which is pending. -/
theorem Confined.enter (h : Confined P pending s) (ht : kind ≠ .tree) (hn : kind ≠ .node) {old : Ref kind}
    (hold : P ⟨kind, old⟩) (x : kind.Record) :
    Confined P (⟨kind, (s.ctx.insert kind x).1⟩ :: pending) (s.enter kind old x) := by
  constructor
  · intro kind' a b hab
    by_cases hk : kind' = kind
    · subst hk
      rw [Copies, entries_enter s old x ht hn] at hab
      rcases List.mem_cons.1 hab with heq | hab
      · cases heq
        exact hold
      · exact h.originals a b hab
    · rw [Copies, entries_enter_of_ne s old x ht hn hk] at hab
      exact h.originals a b hab
  · intro c j
    rw [ctx_enter, Context.conditionJoins_insert, h.registered c j, List.mem_cons, not_or]
    by_cases hj : (⟨.groupJoin, j⟩ : AnyRef) = ⟨kind, (s.ctx.insert kind x).1⟩
    · -- nothing is noted for a group join that was not there
      refine iff_of_false (fun hhas => ?_) fun hhas => hhas.2.1 hj
      have hj' := hhas.1.has
      cases hj
      exact not_has_insert_self s.ctx x hj'
    · rw [hasCondition_insert hj]
      simp only [hj, not_false_eq_true, true_and]

/-- The pending copies other than group joins do not matter. -/
theorem Confined.pop {r : Ref kind} (h : Confined P (⟨kind, r⟩ :: pending) s) (hk : kind ≠ .groupJoin) :
    Confined P pending s := by
  refine ⟨h.originals, fun c j => ?_⟩
  rw [h.registered c j, List.mem_cons, not_or]
  have hne : (⟨.groupJoin, j⟩ : AnyRef) ≠ ⟨kind, r⟩ := by simp [hk.symm]
  simp only [hne, not_false_eq_true, true_and]

/-- A change of what is no group join concerns no conditions. -/
theorem sameConditions_change (s : Duplication) (r : Ref kind) (f : kind.Record → kind.Record) (hk : kind ≠ .groupJoin) :
    s.ctx.SameConditions (s.change r f).ctx := by
  refine ⟨Context.conditionJoins_update s.ctx r f, fun j c => ?_⟩
  have hrecord : (s.change r f).ctx.record? j = s.ctx.record? j := Context.record?_update_of_kind s.ctx r f hk.symm j
  rw [Context.HasCondition, hrecord, Context.HasCondition]

/-- A copy other than that of a group join is finished. -/
theorem Confined.change (h : Confined P pending s) (ht : kind ≠ .tree) (hk : kind ≠ .groupJoin) (r : Ref kind)
    (f : kind.Record → kind.Record) : Confined P pending (s.change r f) :=
  h.of_same (entries_change s r f ht) (sameConditions_change s r f hk)

/-- The copy of a group join is finished: its conditions are registered for it. -/
theorem Confined.finishGroupJoin {new : GroupJoinId} (h : Confined P (⟨.groupJoin, new⟩ :: pending) s) (hnew : s.ctx.Has new)
    (hfree : (⟨.groupJoin, new⟩ : AnyRef) ∉ pending) (y : GroupJoin) :
    Confined P pending ((s.register y.conditions new).change new fun _ => y) := by
  have hentries : ∀ kind, ((s.register y.conditions new).change new fun _ => y).entries kind = s.entries kind := by
    intro kind
    rw [entries_change _ _ _ (by simp)]
    cases kind <;> rfl
  refine ⟨fun kind a b hab => h.originals a b (by rwa [Copies, hentries] at hab), fun c j => ?_⟩
  have hjoins : ((s.register y.conditions new).change new fun _ => y).ctx.conditionJoins =
      (y.conditions.map fun c => (c, new)).reverse ++ s.ctx.conditionJoins := Context.conditionJoins_update _ _ _
  rw [hjoins, List.mem_append, h.registered c j]
  simp only [List.mem_reverse, List.mem_map, Prod.mk.injEq, List.mem_cons, not_or, Sigma.mk.injEq, heq_eq_eq, true_and]
  by_cases hj : j = new
  · subst hj
    have hself : ((s.register y.conditions j).change j fun _ => y).ctx.record? j = some y :=
      record?_change_self (s := s.register y.conditions j) hnew y
    simp [Context.HasCondition, hself, hfree]
  · have hother : ((s.register y.conditions new).change new fun _ => y).ctx.record? j = s.ctx.record? j :=
      (Context.record?_update_of_ne _ (by simpa using hj)).trans rfl
    simp [Context.HasCondition, hother, hj, Ne.symm hj]

/-! ## Trees, nodes and numbers -/

/-- What an entity of the set refers to is of the set. -/
theorem Additive.closed_references (h : Additive s₀ input s) (hP : input.ClosedBare P) {r : Ref kind} {x : kind.Record}
    (hr : P ⟨kind, r⟩) (hx : s.ctx.record? r = some x) : ∀ ref ∈ kind.references (kind.bare x), P ref := by
  obtain ⟨y, hy⟩ := Context.exists_record? (hP.has _ hr)
  obtain ⟨z, hz, hzy⟩ := h.kept r y hy
  rw [hx] at hz
  cases hz
  rw [hzy]
  exact hP.references r y hr hy

/-- A call keeps what holds during a session and copies only what is of a set. -/
abbrev Confines (I : List AnyRef → Duplication → Prop) (P : AnyRef → Prop) (pending : List AnyRef) (action : Copying α) : Prop :=
  Keeps (fun s => I pending s ∧ Confined P pending s) action fun _ _ => True

/-- An action that keeps a session in order and confined confines it. -/
theorem Confines.of_confined {I : List AnyRef → Duplication → Prop} {action : Copying α} {answer : Duplication → α → Prop}
    (h : Keeps (I pending) action answer) (hc : ∀ s, I pending s → Confined P pending s → Confined P pending (action s).2) :
    Confines I P pending action := by
  intro s hs
  obtain ⟨h₁, hext, -⟩ := h s hs.1
  exact ⟨⟨h₁, hc s hs.1 hs.2⟩, hext, trivial⟩

/-- The call for a tree of the set copies it and its nodes, which are in the set. -/
theorem Confined.tree (h : Confined P pending s) (hs : InSession s₀ input pending s) (hP : input.ClosedBare P) {old : TreeId}
    (hold : P ⟨.tree, old⟩) : Confined P pending (tree old s).2 := by
  rw [tree_eq]
  cases hl : s.trees.lookup old with
  | some new => exact h
  | none =>
    obtain ⟨t, ht⟩ := Context.exists_record? (hs.has_of_input (hP.has _ hold))
    have hget : s.ctx.trees.get old = t := Arena.get_of_get? _ ht
    have hnodes := hs.closed_references hP hold ht
    simp only [EntityKind.references, EntityKind.bare, List.forall_mem_map, List.forall_mem_append] at hnodes
    dsimp only
    rw [hget]
    refine ⟨fun kind a b hab => ?_, h.registered⟩
    by_cases htree : kind = .tree
    · subst htree
      rcases List.mem_cons.1 hab with heq | hab
      · cases heq
        exact hold
      · exact h.originals a b hab
    · by_cases hnode : kind = .node
      · subst hnode
        rw [Copies, hs.noted.entries_node_enterTree ht] at hab
        rcases List.mem_append.1 hab with hab | hab
        · exact hnodes.2 a (eq_of_mem_zip_map hab).1
        · exact h.originals a b hab
      · rw [Copies, entries_enterTree_of_ne s old t htree hnode] at hab
        exact h.originals a b hab

theorem Confined.node (h : Confined P pending s) (hs : InSession s₀ input pending s) (hin : input.Closed)
    (hP : input.ClosedBare P) {old : NodeId} (hold : P ⟨.node, old⟩) : Confined P pending (node old s).2 := by
  obtain ⟨x, hx⟩ := Context.exists_record? (hs.has_of_input (hP.has _ hold))
  obtain ⟨-, new, heq, -⟩ := hs.node_found hin (hP.has _ hold) hx
  rw [heq]
  exact h.tree hs hP (hs.closed_references hP hold hx ⟨.tree, x.tree⟩ (by simp [EntityKind.references, EntityKind.bare]))

/-- Numbers are no entities. -/
theorem Confined.renumber (h : Confined P pending s) (next : Int) (planNodes : List (Int × Int)) (used : List Int)
    (conditions : List (ConditionId × ConditionId)) : Confined P pending (s.renumber next planNodes used conditions) :=
  h.of_same (fun kind => by cases kind <;> rfl) (Context.sameConditions_of_arena rfl rfl)

theorem Confined.condition (h : Confined P pending s) (c : ConditionId) : Confined P pending (condition c s).2 := by
  rw [condition_eq]
  cases s.conditions.lookup c with
  | some new => exact h
  | none => exact h.renumber _ _ _ _

theorem Confined.nodeNumber (h : Confined P pending s) (id : Int) : Confined P pending (nodeNumber id s).2 := by
  rw [nodeNumber_eq]
  cases s.planNodes.lookup id with
  | some new => exact h
  | none => exact h.renumber _ _ _ _

theorem Confined.copyNumber (h : Confined P pending s) (id : Int) : Confined P pending (copyNumber id s).2 := by
  rw [copyNumber_eq]
  dsimp only
  split
  · exact (h.nodeNumber id).renumber _ _ _ _
  · exact (h.nodeNumber id).renumber _ _ _ _

/-! ## Sources, groups and group joins -/

/-- The calls with some fuel copy only what is of a set. -/
structure CallsConfine (s₀ : Duplication) (input : Context) (P : AnyRef → Prop) (fuel : Nat) : Prop where
  source : ∀ pending (old : SourceId), P ⟨.source, old⟩ →
    Confines (Fueled s₀ input fuel) P pending (sourceWith fuel old)
  group : ∀ pending (old : GroupId), P ⟨.group, old⟩ → Confines (Fueled s₀ input fuel) P pending (groupWith fuel old)
  groupJoin : ∀ pending (old : GroupJoinId), P ⟨.groupJoin, old⟩ →
    Confines (Fueled s₀ input fuel) P pending (groupJoinWith fuel old)

section Calls

variable (hin : input.Closed) (hP : input.ClosedBare P)
include hin hP

omit hin hP in
theorem confines_condition (c : ConditionId) : Confines (Fueled s₀ input fuel) P pending (condition c) :=
  .of_confined (keeps_condition c).fueled fun _ _ hc => hc.condition c

theorem confines_node {old : NodeId} (hold : P ⟨.node, old⟩) : Confines (Fueled s₀ input fuel) P pending (node old) :=
  .of_confined (keeps_node hin (hP.has _ hold)).fueled fun _ hs hc => hc.node hs.1 hin hP hold

/-- A source of the set refers to entities of the set only, which calls of less fuel confine. -/
theorem CallsConfine.source_succ (ih : CallsConfine s₀ input P fuel) {old : SourceId} (hold : P ⟨.source, old⟩) :
    Confines (Fueled s₀ input (fuel + 1)) P pending (sourceWith (fuel + 1) old) := by
  refine .of_confined ((callsKeep s₀ hin (fuel + 1)).source pending old (hP.has _ hold)) fun s hs hc => ?_
  rw [sourceWith_succ]
  cases hl : s.sources.lookup old with
  | some new => exact hc
  | none =>
    obtain ⟨x, hx⟩ := Context.exists_record? (hs.1.has_of_input (hP.has _ hold))
    have hget : s.ctx.sources.get old = x := Arena.get_of_get? _ hx
    have hrefs := hs.1.closed_references hP hold hx
    simp only [EntityKind.references, EntityKind.bare, List.forall_mem_cons, List.forall_mem_append, List.forall_mem_map,
      Option.mem_toList] at hrefs
    obtain ⟨hnode, hgroup, hjoin⟩ := hrefs
    have henter := hs.enter (by simp) (by simp) (by simp) (hP.has _ hold) (not_mem_keys_of_lookup hl) hx
    have hentered := hc.enter (by simp) (by simp) hold x
    obtain ⟨h₁, -⟩ := confines_node hin hP hnode _ ⟨henter, hentered⟩
    obtain ⟨h₂, -⟩ := Keeps.mapM_option (fun g hg => ih.group _ g (hgroup g hg)) _ h₁
    obtain ⟨h₃, -⟩ := Keeps.mapM_option (fun j hj => ih.groupJoin _ j (hjoin j hj)) _ h₂
    dsimp only
    rw [hget]
    exact ((h₃.2.pop (by simp)).change (by simp) (by simp) _ _).change (by simp) (by simp) _ _

/-- A group of the set lists sources and joins of the set only, which calls of less fuel confine. -/
theorem CallsConfine.group_succ (ih : CallsConfine s₀ input P fuel) {old : GroupId} (hold : P ⟨.group, old⟩) :
    Confines (Fueled s₀ input (fuel + 1)) P pending (groupWith (fuel + 1) old) := by
  refine .of_confined ((callsKeep s₀ hin (fuel + 1)).group pending old (hP.has _ hold)) fun s hs hc => ?_
  rw [groupWith_succ]
  cases hl : s.groups.lookup old with
  | some new => exact hc
  | none =>
    obtain ⟨g, hg⟩ := Context.exists_record? (hs.1.has_of_input (hP.has _ hold))
    have hget : s.ctx.groups.get old = g := Arena.get_of_get? _ hg
    have hrefs := hs.1.closed_references hP hold hg
    simp only [EntityKind.references, EntityKind.bare, List.forall_mem_append, List.forall_mem_map, Option.mem_toList] at hrefs
    obtain ⟨⟨htables, hjoins⟩, hmerged⟩ := hrefs
    have henter := hs.enter (by simp) (by simp) (by simp) (hP.has _ hold) (not_mem_keys_of_lookup hl) hg
    have hentered := hc.enter (by simp) (by simp) hold g
    obtain ⟨h₁, -⟩ := Keeps.mapM (fun _ _ _ _ _ h => h) (fun t ht => ih.source _ t (htables t ht)) _ ⟨henter, hentered⟩
    obtain ⟨h₂, -⟩ := Keeps.mapM (fun _ _ _ _ _ h => h) (fun j hj => ih.groupJoin _ j (hjoins j hj)) _ h₁
    obtain ⟨h₃, -⟩ := Keeps.mapM_option (fun m hm => ih.group _ m (hmerged m hm)) _ h₂
    dsimp only
    rw [hget]
    exact (h₃.2.pop (by simp)).change (by simp) (by simp) _ _

/-- A join of the set refers to entities of the set only, and its copy is noted for its conditions. -/
theorem CallsConfine.groupJoin_succ (ih : CallsConfine s₀ input P fuel) {old : GroupJoinId} (hold : P ⟨.groupJoin, old⟩) :
    Confines (Fueled s₀ input (fuel + 1)) P pending (groupJoinWith (fuel + 1) old) := by
  refine .of_confined ((callsKeep s₀ hin (fuel + 1)).groupJoin pending old (hP.has _ hold)) fun s hs hc => ?_
  rw [groupJoinWith_succ]
  cases hl : s.groupJoins.lookup old with
  | some new => exact hc
  | none =>
    obtain ⟨j, hj⟩ := Context.exists_record? (hs.1.has_of_input (hP.has _ hold))
    have hget : s.ctx.groupJoins.get old = j := Arena.get_of_get? _ hj
    have hrefs := hs.1.closed_references hP hold hj
    simp only [EntityKind.references, EntityKind.bare, List.forall_mem_cons] at hrefs
    obtain ⟨hgroup, hparent, hchild, -⟩ := hrefs
    have henter := hs.enter (by simp) (by simp) (by simp) (hP.has _ hold) (not_mem_keys_of_lookup hl) hj
    have hentered := hc.enter (by simp) (by simp) hold j
    obtain ⟨h₁, hext₁, -⟩ := ih.group _ j.group hgroup _ ⟨henter, hentered⟩
    obtain ⟨h₂, hext₂, -⟩ := ih.source _ j.parent hparent _ h₁
    obtain ⟨h₃, hext₃, -⟩ := ih.source _ j.child hchild _ h₂
    obtain ⟨h₄, hext₄, -⟩ := Keeps.mapM (fun _ _ _ _ _ h => h) (fun c _ => confines_condition c) _ h₃
    dsimp only
    rw [hget]
    have hcopy := (((hext₁.trans hext₂).trans hext₃).trans hext₄).copies (copies_enter_self s old j (by simp) (by simp))
    exact h₄.2.finishGroupJoin (h₄.1.1.has_copy hcopy) (List.nodup_cons.1 h₄.1.1.pendingNodup).1 _

/-- Calls of every fuel confine the session. -/
theorem callsConfine (s₀ : Duplication) (fuel : Nat) : CallsConfine s₀ input P fuel := by
  induction fuel with
  | zero =>
    refine ⟨?_, ?_, ?_⟩ <;>
    · intro pending old _ s hs
      exact absurd rfl hs.1.fuel_ne_zero
  | succ fuel ih =>
    refine ⟨?_, ?_, ?_⟩
    · intro pending old hold
      exact ih.source_succ hin hP hold
    · intro pending old hold
      exact ih.group_succ hin hP hold
    · intro pending old hold
      exact ih.groupJoin_succ hin hP hold

/-! ## All calls -/

/-- The call for a source of the set confines the session. -/
theorem confines_source {old : SourceId} (hold : P ⟨.source, old⟩) : Confines (InSession s₀ input) P pending (source old) :=
  .of_confined (keeps_source hin (hP.has _ hold)) fun s hs hc =>
    ((callsConfine hin hP s₀ s.fuel).source pending old hold s ⟨hs.fueled, hc⟩).1.2

theorem Confined.keyJoin (h : Confined P pending s) (hs : InSession s₀ input pending s) {old : KeyJoinId}
    (hold : P ⟨.keyJoin, old⟩) : Confined P pending (keyJoin old s).2 := by
  rw [keyJoin_eq]
  cases hl : s.keyJoins.lookup old with
  | some new => exact h
  | none =>
    obtain ⟨j, hj⟩ := Context.exists_record? (hs.has_of_input (hP.has _ hold))
    have hget : s.ctx.keyJoins.get old = j := Arena.get_of_get? _ hj
    have hrefs := hs.closed_references hP hold hj
    simp only [EntityKind.references, EntityKind.bare, List.forall_mem_cons] at hrefs
    obtain ⟨hparent, hchild, -⟩ := hrefs
    have henter := hs.enter (by simp) (by simp) (hP.has _ hold) (not_mem_keys_of_lookup hl) hj
    have hentered := h.enter (by simp) (by simp) hold j
    obtain ⟨h₁, -⟩ := confines_source hin hP hparent _ ⟨henter, hentered⟩
    obtain ⟨h₂, -⟩ := confines_source hin hP hchild _ h₁
    obtain ⟨h₃, -⟩ := Keeps.mapM (fun _ _ _ _ _ h => h) (fun c _ => confines_condition c) _ ⟨h₂.1.fueled, h₂.2⟩
    dsimp only
    rw [hget]
    exact (h₃.2.pop (by simp)).change (by simp) (by simp) _ _

/-- Every call for an entity of the set confines the session. -/
theorem confines_entity {r : Ref kind} (hr : P ⟨kind, r⟩) : Confines (InSession s₀ input) P pending (entity kind r) := by
  refine .of_confined (keeps_entity hin (hP.has _ hr)) fun s hs hc => ?_
  cases kind with
  | tree => exact hc.tree hs hP hr
  | node => exact hc.node hs hin hP hr
  | source => exact (confines_source hin hP hr s ⟨hs, hc⟩).1.2
  | group => exact ((callsConfine hin hP s₀ s.fuel).group pending r hr s ⟨hs.fueled, hc⟩).1.2
  | groupJoin => exact ((callsConfine hin hP s₀ s.fuel).groupJoin pending r hr s ⟨hs.fueled, hc⟩).1.2
  | keyJoin => exact hc.keyJoin hin hP hs hr
  | hashTable =>
    rw [entity, hashTable_eq]
    cases s.hashTables.lookup r with
    | some new => exact hc
    | none => exact (hc.enter (by simp) (by simp) hr _).pop (by simp)
  | bloomFilter =>
    rw [entity, bloomFilter_eq]
    cases s.bloomFilters.lookup r with
    | some new => exact hc
    | none => exact (hc.enter (by simp) (by simp) hr _).pop (by simp)

end Calls

/-! ## Whole sessions -/

/-- The references of a closed context do not lead out of it. -/
theorem closedBare_has {ctx : Context} (h : ctx.Closed) : ctx.ClosedBare fun ref => ctx.Has ref.2 :=
  ⟨fun _ href => href, fun _ r x hr hx ref href => h r x hr hx ref (EntityKind.references_bare href)⟩

/-- What a copied entity leads to is copied as well. -/
theorem InSession.copied_of_reached (h : InSession s₀ input [] s) {a b : AnyRef}
    (hab : Relation.ReflTransGen s₀.ctx.Refers a b) (ha : ∃ new, s.Copies a.2 new) : ∃ new, s.Copies b.2 new := by
  induction hab with
  | refl => exact ha
  | tail _ hstep ih =>
    -- the copy of the entity before is faithful, so what it refers to is copied too
    obtain ⟨new, hc⟩ := ih
    obtain ⟨x, hx, href⟩ := hstep
    obtain ⟨y, -, hf⟩ := h.exists_copy hc ((h.frame _ (Context.has_of_record? hx)).trans hx)
    exact hf.copied _ href

/-- A session that starts in a context copies nothing but entities of the context. -/
theorem InSession.confined (h : InSession s₀ s.ctx [] s) (hreg : s.ctx.Registered []) :
    Confined (fun ref => s.ctx.Has ref.2) [] s :=
  ⟨fun _ _ _ hc => h.input_has_original hc, hreg⟩

/-- After each call of a session a condition is noted for exactly the group joins that have it. -/
theorem Session.registered {ctx : Context} {supply : Supply} (hwf : ctx.WellFormed) (hreg : ctx.Registered [])
    (h : Session ctx supply s) : s.ctx.Registered [] := by
  induction h with
  | start => exact hreg
  | entity r hs hr ih =>
    have h := hs.inSession hwf
    have hclosed := h.wellFormed.closed
    exact (confines_entity hclosed (closedBare_has hclosed) hr _ ⟨h, h.confined ih⟩).1.2.registered
  | condition c hs ih => exact (((hs.inSession hwf).confined ih).condition c).registered
  | nodeNumber id hs ih => exact (((hs.inSession hwf).confined ih).nodeNumber id).registered
  | copyNumber id hs ih => exact (((hs.inSession hwf).confined ih).copyNumber id).registered

end Duplication

open Duplication

/-- In every reachable context a condition is noted for exactly the group joins that have it. -/
theorem Reached.registered {ctx : Context} {supply : Supply} (h : Reached ctx supply) : ctx.Registered [] := by
  induction h with
  | start config =>
    intro c j
    refine iff_of_false List.not_mem_nil ?_
    rintro ⟨⟨x, hx, -⟩, -⟩
    cases hx
  | draw _ ih => exact ih
  | setProperty name value _ ih => exact ih.of_same (Context.sameConditions_of_arena rfl rfl)
  | addTree group _ ih => exact ih.of_same (Context.sameConditions_of_arena rfl rfl)
  | nodeFor tree table _ _ ih => exact ih.of_same (Context.sameConditions_nodeFor tree table)
  | addSource node name required _ _ ih => exact ih.of_same (Context.sameConditions_of_arena rfl rfl)
  | setRequired source required _ _ ih => exact ih.of_same (Context.sameConditions_of_arena rfl rfl)
  | addGroup first _ _ ih => exact ih.of_same (Context.sameConditions_of_arena rfl rfl)
  | addGroupJoin group parent child conditions join _ _ _ _ hok ih => exact ih.addGroupJoin hok
  | rejectGroupJoin id _ hid ih => exact ih.of_same (Context.sameConditions_rejectGroupJoin hid)
  | mergeGroups into other _ _ ho ih => exact ih.of_same (Context.sameConditions_mergeGroups ho)
  | addKeyJoin parent child conditions foreignKey _ _ _ ih => exact ih.of_same (Context.sameConditions_of_arena rfl rfl)
  | addHashTable t _ ih => exact ih.of_same (Context.sameConditions_of_arena rfl rfl)
  | addBloomFilter f _ ih => exact ih.of_same (Context.sameConditions_of_arena rfl rfl)
  | session hctx hs ih => exact hs.registered hctx.wellFormed ih

end ClusterPlan
