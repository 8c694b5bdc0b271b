import ClusterPlan.Duplication.Session
import ClusterPlan.Proofs.Context.Operations
import Mathlib.Data.List.Forall2

/-!
# Originals and copies

A session notes for each kind which entity is the copy of which. A copy is faithful if each reference of it is the copy of the
reference of the original, and everything else is equal; the uses of a node are left out, because a node is copied before the
sources on it. Later states of a session keep the copies, and the entities up to their uses (`Extends`).
-/

namespace ClusterPlan

/-- An entity without the part that changes after it was copied: the uses of a node. -/
def EntityKind.bare : (kind : EntityKind) → kind.Record → kind.Record
  | node, n => { n with uses := [] }
  | tree, x | source, x | group, x | groupJoin, x | keyJoin, x | hashTable, x | bloomFilter, x => x

/-- What an entity refers to without its uses it refers to. -/
theorem EntityKind.references_bare {kind : EntityKind} {x : kind.Record} {ref : AnyRef}
    (h : ref ∈ kind.references (kind.bare x)) : ref ∈ kind.references x := by
  cases kind with
  | node =>
    simp only [references, bare, List.map_nil, List.append_nil, List.mem_cons, List.mem_append] at h ⊢
    rcases h with h | h
    · exact Or.inl h
    · exact Or.inr (Or.inl h)
  | _ => exact h

namespace Context

/-- One context still has the entities of another one, up to the uses of nodes. -/
def KeepsBare (ctx ctx' : Context) : Prop :=
  ∀ ⦃kind : EntityKind⦄ (r : Ref kind) (x : kind.Record), ctx.record? r = some x →
    ∃ y, ctx'.record? r = some y ∧ kind.bare y = kind.bare x

theorem KeepsBare.refl (ctx : Context) : ctx.KeepsBare ctx :=
  fun _ _ x hx => ⟨x, hx, rfl⟩

theorem KeepsBare.trans {ctx₁ ctx₂ ctx₃ : Context} (h : ctx₁.KeepsBare ctx₂) (h' : ctx₂.KeepsBare ctx₃) :
    ctx₁.KeepsBare ctx₃ := by
  intro kind r x hx
  obtain ⟨y, hy, hyx⟩ := h r x hx
  obtain ⟨z, hz, hzy⟩ := h' r y hy
  exact ⟨z, hz, hzy.trans hyx⟩

/-- Entities that are kept up to their uses are still there. -/
theorem KeepsBare.has {ctx ctx' : Context} (h : ctx.KeepsBare ctx') {kind : EntityKind} {r : Ref kind} (hr : ctx.Has r) :
    ctx'.Has r := by
  obtain ⟨x, hx⟩ := exists_record? hr
  obtain ⟨y, hy, -⟩ := h r x hx
  exact has_of_record? hy

/-- Where entities are kept, arenas do not shrink. -/
theorem KeepsBare.size_le {ctx ctx' : Context} (h : ctx.KeepsBare ctx') (kind : EntityKind) :
    (ctx.arena kind).size ≤ (ctx'.arena kind).size := by
  by_contra hlt
  have hhas : ctx.Has (⟨(ctx'.arena kind).size⟩ : Ref kind) := Nat.not_le.1 hlt
  exact Nat.lt_irrefl _ (h.has hhas)

end Context

namespace Duplication

variable {kind kind' : EntityKind} {s s' : Duplication}

/-- The originals of a kind with their copies. Nodes are copied with their trees. -/
def entries (s : Duplication) : (kind : EntityKind) → List (Ref kind × Ref kind)
  | .tree => s.trees
  | .node =>
    s.trees.flatMap (fun t => (s.ctx.trees.get t.1).nodes.zip (s.ctx.trees.get t.2).nodes) ++ s.looseNodes
  | .source => s.sources
  | .group => s.groups
  | .groupJoin => s.groupJoins
  | .keyJoin => s.keyJoins
  | .hashTable => s.hashTables
  | .bloomFilter => s.bloomFilters

/-- What a session has noted is in its context. Nodes are noted with their trees. -/
def Noted (s : Duplication) : Prop :=
  ∀ ⦃kind : EntityKind⦄, kind ≠ .node → ∀ a ∈ s.entries kind, s.ctx.Has a.1 ∧ s.ctx.Has a.2

/-- Is an entity the copy of another one? -/
def Copies (s : Duplication) (old new : Ref kind) : Prop := (old, new) ∈ s.entries kind

/-- Is a condition the copy of another one? -/
def CopiesCondition (s : Duplication) (old new : ConditionId) : Prop := (old, new) ∈ s.conditions

/-- Each reference of the copy is the copy of the reference of the original, and all else is equal. -/
def Faithful (s : Duplication) : (kind : EntityKind) → kind.Record → kind.Record → Prop
  | .tree, t, t' => t'.group = t.group ∧ Option.Rel s.Copies t.root t'.root ∧ List.Forall₂ s.Copies t.nodes t'.nodes
  | .node, n, n' =>
    s.Copies n.tree n'.tree ∧ n'.table = n.table ∧ Option.Rel s.Copies n.parent n'.parent ∧
      List.Forall₂ s.Copies n.children n'.children
  | .source, x, x' =>
    s.Copies x.node x'.node ∧ x'.name = x.name ∧ x'.required = x.required ∧ Option.Rel s.Copies x.group x'.group ∧
      Option.Rel s.Copies x.parentJoin x'.parentJoin
  | .group, g, g' =>
    List.Forall₂ s.Copies g.tables g'.tables ∧ List.Forall₂ s.Copies g.joins g'.joins ∧
      Option.Rel s.Copies g.mergedInto g'.mergedInto
  | .groupJoin, j, j' =>
    s.Copies j.group j'.group ∧ s.Copies j.parent j'.parent ∧ s.Copies j.child j'.child ∧
      List.Forall₂ s.CopiesCondition j.conditions j'.conditions ∧ j'.join = j.join ∧ j'.rejected = j.rejected
  | .keyJoin, j, j' =>
    s.Copies j.parent j'.parent ∧ s.Copies j.child j'.child ∧
      List.Forall₂ s.CopiesCondition j.conditions j'.conditions ∧ j'.foreignKey = j.foreignKey
  | .hashTable, t, t' => t' = t
  | .bloomFilter, f, f' => f' = f

section Relations

variable {α β : Type} {R R' : α → β → Prop}

/-- Options that are related stay related in a wider sense. -/
theorem optionRel_imp (h : ∀ a b, R a b → R' a b) {a : Option α} {b : Option β} (hab : Option.Rel R a b) :
    Option.Rel R' a b := by
  cases hab with
  | some hr => exact .some (h _ _ hr)
  | none => exact .none

/-- What the second of two related options holds has a partner. -/
theorem exists_of_optionRel {a : Option α} {b : Option β} (hab : Option.Rel R a b) {y : β} (hy : y ∈ b.toList) :
    ∃ x, R x y := by
  cases hab with
  | some hr =>
    rw [Option.toList_some, List.mem_singleton] at hy
    exact ⟨_, hy ▸ hr⟩
  | none => cases hy

/-- Each element of the second of two related lists has a partner. -/
theorem exists_of_forall₂ {xs : List α} {ys : List β} (h : List.Forall₂ R xs ys) {y : β} (hy : y ∈ ys) : ∃ x, R x y := by
  induction h with
  | nil => cases hy
  | cons hr _ ih =>
    rcases List.mem_cons.1 hy with rfl | hy
    · exact ⟨_, hr⟩
    · exact ih hy

/-- What the first of two related options holds has a partner. -/
theorem image_of_optionRel {a : Option α} {b : Option β} (hab : Option.Rel R a b) {x : α} (hx : x ∈ a.toList) :
    ∃ y, R x y := by
  cases hab with
  | some hr =>
    rw [Option.toList_some, List.mem_singleton] at hx
    exact ⟨_, hx ▸ hr⟩
  | none => cases hx

/-- Each element of the first of two related lists has a partner. -/
theorem image_of_forall₂ {xs : List α} {ys : List β} (h : List.Forall₂ R xs ys) {x : α} (hx : x ∈ xs) : ∃ y, R x y :=
  exists_of_forall₂ (List.Forall₂.flip (R := flip R) h) hx

end Relations

/-- A copy stays faithful when there are more copies. -/
theorem Faithful.mono {x y : kind.Record} (h : s.Faithful kind x y)
    (he : ∀ kind, s.entries kind ⊆ s'.entries kind) (hc : s.conditions ⊆ s'.conditions) : s'.Faithful kind x y := by
  have hcopy : ∀ {kind : EntityKind} (a b : Ref kind), s.Copies a b → s'.Copies a b := fun _ _ hab => he _ hab
  have hcond : ∀ a b, s.CopiesCondition a b → s'.CopiesCondition a b := fun _ _ hab => hc hab
  cases kind with
  | tree =>
    obtain ⟨h1, h2, h3⟩ := h
    exact ⟨h1, optionRel_imp hcopy h2, h3.imp hcopy⟩
  | node =>
    obtain ⟨h1, h2, h3, h4⟩ := h
    exact ⟨hcopy _ _ h1, h2, optionRel_imp hcopy h3, h4.imp hcopy⟩
  | source =>
    obtain ⟨h1, h2, h3, h4, h5⟩ := h
    exact ⟨hcopy _ _ h1, h2, h3, optionRel_imp hcopy h4, optionRel_imp hcopy h5⟩
  | group =>
    obtain ⟨h1, h2, h3⟩ := h
    exact ⟨h1.imp hcopy, h2.imp hcopy, optionRel_imp hcopy h3⟩
  | groupJoin =>
    obtain ⟨h1, h2, h3, h4, h5⟩ := h
    exact ⟨hcopy _ _ h1, hcopy _ _ h2, hcopy _ _ h3, h4.imp hcond, h5⟩
  | keyJoin =>
    obtain ⟨h1, h2, h3, h4⟩ := h
    exact ⟨hcopy _ _ h1, hcopy _ _ h2, h3.imp hcond, h4⟩
  | hashTable => exact h
  | bloomFilter => exact h

/-- The uses do not matter for being faithful. -/
theorem Faithful.congr_bare {x x' y y' : kind.Record} (h : s.Faithful kind x y) (hx : kind.bare x' = kind.bare x)
    (hy : kind.bare y' = kind.bare y) : s.Faithful kind x' y' := by
  cases kind with
  | node =>
    simp only [EntityKind.bare, TableNode.mk.injEq, and_true] at hx hy
    obtain ⟨hx1, hx2, hx3, hx4⟩ := hx
    obtain ⟨hy1, hy2, hy3, hy4⟩ := hy
    obtain ⟨h1, h2, h3, h4⟩ := h
    refine ⟨?_, ?_, ?_, ?_⟩
    · rwa [hx1, hy1]
    · rwa [hx2, hy2]
    · rwa [hx3, hy3]
    · rwa [hx4, hy4]
  | _ =>
    cases hx
    cases hy
    exact h

/-- A faithful copy holds copies only, up to its uses. -/
theorem Faithful.exists_copies {x y : kind.Record} (h : s.Faithful kind x y) :
    ∀ ref ∈ kind.references (kind.bare y), ∃ old, s.Copies old ref.2 := by
  cases kind with
  | tree =>
    obtain ⟨-, h2, h3⟩ := h
    simp only [EntityKind.references, EntityKind.bare, List.forall_mem_map, List.forall_mem_append]
    exact ⟨fun _ => exists_of_optionRel h2, fun _ => exists_of_forall₂ h3⟩
  | node =>
    obtain ⟨h1, -, h3, h4⟩ := h
    simp only [EntityKind.references, EntityKind.bare, List.forall_mem_cons, List.forall_mem_map, List.forall_mem_append]
    exact ⟨⟨_, h1⟩, ⟨fun _ => exists_of_optionRel h3, fun _ => exists_of_forall₂ h4⟩, by simp⟩
  | source =>
    obtain ⟨h1, -, -, h4, h5⟩ := h
    simp only [EntityKind.references, EntityKind.bare, List.forall_mem_cons, List.forall_mem_map, List.forall_mem_append]
    exact ⟨⟨_, h1⟩, fun _ => exists_of_optionRel h4, fun _ => exists_of_optionRel h5⟩
  | group =>
    obtain ⟨h1, h2, h3⟩ := h
    simp only [EntityKind.references, EntityKind.bare, List.forall_mem_map, List.forall_mem_append]
    exact ⟨⟨fun _ => exists_of_forall₂ h1, fun _ => exists_of_forall₂ h2⟩, fun _ => exists_of_optionRel h3⟩
  | groupJoin =>
    obtain ⟨h1, h2, h3, -⟩ := h
    simp only [EntityKind.references, EntityKind.bare, List.forall_mem_cons]
    exact ⟨⟨_, h1⟩, ⟨_, h2⟩, ⟨_, h3⟩, by simp⟩
  | keyJoin =>
    obtain ⟨h1, h2, -⟩ := h
    simp only [EntityKind.references, EntityKind.bare, List.forall_mem_cons]
    exact ⟨⟨_, h1⟩, ⟨_, h2⟩, by simp⟩
  | hashTable => simp [EntityKind.references]
  | bloomFilter => simp [EntityKind.references]

/-- What a faithfully copied entity refers to is copied, uses apart. -/
theorem Faithful.copied {x y : kind.Record} (h : s.Faithful kind x y) :
    ∀ ref ∈ kind.references (kind.bare x), ∃ new, s.Copies ref.2 new := by
  cases kind with
  | tree =>
    obtain ⟨-, h2, h3⟩ := h
    simp only [EntityKind.references, EntityKind.bare, List.forall_mem_map, List.forall_mem_append]
    exact ⟨fun _ => image_of_optionRel h2, fun _ => image_of_forall₂ h3⟩
  | node =>
    obtain ⟨h1, -, h3, h4⟩ := h
    simp only [EntityKind.references, EntityKind.bare, List.forall_mem_cons, List.forall_mem_map, List.forall_mem_append]
    exact ⟨⟨_, h1⟩, ⟨fun _ => image_of_optionRel h3, fun _ => image_of_forall₂ h4⟩, by simp⟩
  | source =>
    obtain ⟨h1, -, -, h4, h5⟩ := h
    simp only [EntityKind.references, EntityKind.bare, List.forall_mem_cons, List.forall_mem_map, List.forall_mem_append]
    exact ⟨⟨_, h1⟩, fun _ => image_of_optionRel h4, fun _ => image_of_optionRel h5⟩
  | group =>
    obtain ⟨h1, h2, h3⟩ := h
    simp only [EntityKind.references, EntityKind.bare, List.forall_mem_map, List.forall_mem_append]
    exact ⟨⟨fun _ => image_of_forall₂ h1, fun _ => image_of_forall₂ h2⟩, fun _ => image_of_optionRel h3⟩
  | groupJoin =>
    obtain ⟨h1, h2, h3, -⟩ := h
    simp only [EntityKind.references, EntityKind.bare, List.forall_mem_cons]
    exact ⟨⟨_, h1⟩, ⟨_, h2⟩, ⟨_, h3⟩, by simp⟩
  | keyJoin =>
    obtain ⟨h1, h2, -⟩ := h
    simp only [EntityKind.references, EntityKind.bare, List.forall_mem_cons]
    exact ⟨⟨_, h1⟩, ⟨_, h2⟩, by simp⟩
  | hashTable => simp [EntityKind.references]
  | bloomFilter => simp [EntityKind.references]

/-- A later state of a session: the copies that were made are still there, and the entities up to their uses. -/
structure Extends (s s' : Duplication) : Prop where
  entries : ∀ kind, s.entries kind ⊆ s'.entries kind
  conditions : s.conditions ⊆ s'.conditions
  planNodes : s.planNodes ⊆ s'.planNodes
  used : s.used ⊆ s'.used
  kept : s.ctx.KeepsBare s'.ctx
  next : s.supply.next ≤ s'.supply.next

theorem Extends.refl (s : Duplication) : s.Extends s :=
  ⟨fun _ => List.Subset.refl _, List.Subset.refl _, List.Subset.refl _, List.Subset.refl _, .refl _, Int.le_refl _⟩

theorem Extends.trans {s₁ s₂ s₃ : Duplication} (h : s₁.Extends s₂) (h' : s₂.Extends s₃) : s₁.Extends s₃ where
  entries kind := List.Subset.trans (h.entries kind) (h'.entries kind)
  conditions := List.Subset.trans h.conditions h'.conditions
  planNodes := List.Subset.trans h.planNodes h'.planNodes
  used := List.Subset.trans h.used h'.used
  kept := h.kept.trans h'.kept
  next := Int.le_trans h.next h'.next

/-- A copy stays the copy in later states. -/
theorem Extends.copies (h : s.Extends s') {old new : Ref kind} (hc : s.Copies old new) : s'.Copies old new :=
  h.entries kind hc

/-- The copy of a condition stays its copy in later states. -/
theorem Extends.copiesCondition (h : s.Extends s') {old new : ConditionId} (hc : s.CopiesCondition old new) :
    s'.CopiesCondition old new :=
  h.conditions hc

end Duplication

end ClusterPlan
