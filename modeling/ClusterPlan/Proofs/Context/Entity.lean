import ClusterPlan.Context.Group
import ClusterPlan.Context.Table

/-!
# Entities by their kind

A context keeps each kind of entity in an arena of its own. Here the arenas are one family over the kinds, so that what holds
of all entities is stated once: which references an entity holds, what an insertion and an update do to each entity, and
which sets of entities no reference leads out of.
-/

namespace ClusterPlan

/-- References to entities of one kind are equal if their places are. -/
theorem Ref.eq_of_index {kind : EntityKind} {r r' : Ref kind} (h : r.index = r'.index) : r = r' := by
  cases r
  cases r'
  rw [mk.injEq]
  exact h

namespace Arena

variable {kind : EntityKind} {α : Type} (a : Arena kind α)

/-- A reference that leads to an entity is one of the places of the arena. -/
theorem index_lt_of_get? {r : Ref kind} {x : α} (h : a.get? r = some x) : r.index < a.size :=
  (Array.getElem?_eq_some_iff.1 h).1

/-- Each place of an arena holds an entity. -/
theorem exists_get? {r : Ref kind} (h : r.index < a.size) : ∃ x, a.get? r = some x :=
  ⟨a.items[r.index], Array.getElem?_eq_getElem h⟩

/-- Where there is an entity, no default is needed. -/
theorem get_of_get? [Inhabited α] {r : Ref kind} {x : α} (h : a.get? r = some x) : a.get r = x := by
  rw [get, h]
  rfl

/-- Behind the last place there is the default. -/
theorem get_of_size_le [Inhabited α] {r : Ref kind} (h : a.size ≤ r.index) : a.get r = default := by
  rw [get, get?, Array.getElem?_eq_none h]
  rfl

/-- What holds of all entities holds of everything in the arena. -/
theorem forall_get?_iff {P : α → Prop} : (∀ r x, a.get? r = some x → P x) ↔ ∀ x ∈ a.items, P x := by
  constructor
  · intro h x hx
    obtain ⟨i, hi, rfl⟩ := Array.getElem_of_mem hx
    exact h ⟨i⟩ _ (Array.getElem?_eq_getElem hi)
  · intro h r x hx
    exact h x (Array.mem_of_getElem? hx)

/-- An arena grows by one entity at a time. -/
@[simp] theorem size_push (x : α) : (a.push x).2.size = a.size + 1 := by
  simp [size, push]

/-- A new entity gets the first place that is not taken. -/
@[simp] theorem index_push (x : α) : (a.push x).1.index = a.size := rfl

/-- A modified arena has as many entities as before. -/
@[simp] theorem size_modify (r : Ref kind) (f : α → α) : (a.modify r f).size = a.size := by
  simp [size, modify]

/-- An insertion keeps the entities that are there. -/
theorem get?_push_of_lt {r : Ref kind} (x : α) (h : r.index < a.size) : (a.push x).2.get? r = a.get? r := by
  simp only [get?, push]
  rw [Array.getElem?_push_lt h, Array.getElem?_eq_getElem h]

/-- The reference that is given out leads to the new entity. -/
@[simp] theorem get?_push_self (x : α) : (a.push x).2.get? (a.push x).1 = some x := by
  simp [get?, push]

/-- A modification changes the entity at its place, if there is one. -/
@[simp] theorem get?_modify_self (r : Ref kind) (f : α → α) : (a.modify r f).get? r = (a.get? r).map f := by
  simp [get?, modify, Array.getElem?_modify]

/-- An update keeps the other entities. -/
theorem get?_modify_of_ne {r r' : Ref kind} (f : α → α) (h : r' ≠ r) : (a.modify r f).get? r' = a.get? r' := by
  have hi : r.index ≠ r'.index := fun hi => h (Ref.eq_of_index hi.symm)
  simp [get?, modify, Array.getElem?_modify, hi]

end Arena

/-- What the arena of a kind holds. -/
abbrev EntityKind.Record : EntityKind → Type
  | tree => TableTree
  | node => TableNode
  | source => TableSource
  | group => TableGroup
  | groupJoin => GroupJoin
  | keyJoin => KeyJoin
  | hashTable => HashTable
  | bloomFilter => BloomFilter

/-- A reference to an entity of any kind. -/
abbrev AnyRef := (kind : EntityKind) × Ref kind

/-- The references that an entity holds. -/
def EntityKind.references : (kind : EntityKind) → kind.Record → List AnyRef
  | tree, t => (t.root.toList ++ t.nodes).map (⟨node, ·⟩)
  | node, n => ⟨tree, n.tree⟩ :: ((n.parent.toList ++ n.children).map (⟨node, ·⟩) ++ n.uses.map (⟨source, ·⟩))
  | source, x => ⟨node, x.node⟩ :: (x.group.toList.map (⟨group, ·⟩) ++ x.parentJoin.toList.map (⟨groupJoin, ·⟩))
  | group, g => g.tables.map (⟨source, ·⟩) ++ g.joins.map (⟨groupJoin, ·⟩) ++ g.mergedInto.toList.map (⟨group, ·⟩)
  | groupJoin, j => [⟨group, j.group⟩, ⟨source, j.parent⟩, ⟨source, j.child⟩]
  | keyJoin, j => [⟨source, j.parent⟩, ⟨source, j.child⟩]
  | hashTable, _ => []
  | bloomFilter, _ => []

namespace Context

/-- The arena of a kind. -/
def arena (ctx : Context) : (kind : EntityKind) → Arena kind kind.Record
  | .tree => ctx.trees
  | .node => ctx.nodes
  | .source => ctx.sources
  | .group => ctx.groups
  | .groupJoin => ctx.groupJoins
  | .keyJoin => ctx.keyJoins
  | .hashTable => ctx.hashTables
  | .bloomFilter => ctx.bloomFilters

/-- The context with another arena of one kind. -/
def withArena (ctx : Context) : (kind : EntityKind) → Arena kind kind.Record → Context
  | .tree, trees => { ctx with trees }
  | .node, nodes => { ctx with nodes }
  | .source, sources => { ctx with sources }
  | .group, groups => { ctx with groups }
  | .groupJoin, groupJoins => { ctx with groupJoins }
  | .keyJoin, keyJoins => { ctx with keyJoins }
  | .hashTable, hashTables => { ctx with hashTables }
  | .bloomFilter, bloomFilters => { ctx with bloomFilters }

variable {kind kind' : EntityKind}

/-- The entity of a reference. -/
def record? (ctx : Context) (r : Ref kind) : Option kind.Record := (ctx.arena kind).get? r

/-- Is there an entity for a reference? -/
def Has (ctx : Context) (r : Ref kind) : Prop := r.index < (ctx.arena kind).size

instance (ctx : Context) (r : Ref kind) : Decidable (ctx.Has r) :=
  inferInstanceAs (Decidable (r.index < (ctx.arena kind).size))

/-- The context with one more entity. -/
def insert (ctx : Context) (kind : EntityKind) (x : kind.Record) : Ref kind × Context :=
  (⟨(ctx.arena kind).size⟩, ctx.withArena kind ((ctx.arena kind).push x).2)

/-- The context with one entity changed. -/
def update (ctx : Context) (r : Ref kind) (f : kind.Record → kind.Record) : Context :=
  ctx.withArena kind ((ctx.arena kind).modify r f)

/-- The arena that was put into a context is found there. -/
@[simp] theorem arena_withArena (ctx : Context) (a : Arena kind kind.Record) : (ctx.withArena kind a).arena kind = a := by
  cases kind <;> rfl

/-- Putting in the arena of one kind leaves those of the other kinds. -/
theorem arena_withArena_of_ne (ctx : Context) (a : Arena kind kind.Record) (h : kind' ≠ kind) :
    (ctx.withArena kind a).arena kind' = ctx.arena kind' := by
  cases kind <;> cases kind' <;> first | rfl | exact absurd rfl h

@[simp] theorem conditionJoins_withArena (ctx : Context) (a : Arena kind kind.Record) :
    (ctx.withArena kind a).conditionJoins = ctx.conditionJoins := by
  cases kind <;> rfl

/-- New entities do not change which group join a condition belongs to. -/
@[simp] theorem conditionJoins_insert (ctx : Context) (x : kind.Record) :
    (ctx.insert kind x).2.conditionJoins = ctx.conditionJoins :=
  conditionJoins_withArena ctx _

/-- Changed entities do not change which group join a condition belongs to. -/
@[simp] theorem conditionJoins_update (ctx : Context) (r : Ref kind) (f : kind.Record → kind.Record) :
    (ctx.update r f).conditionJoins = ctx.conditionJoins :=
  conditionJoins_withArena ctx _

/-! ## Insertions and updates -/

/-- Putting in the arena of one kind leaves the entities of other kinds. -/
theorem record?_withArena_of_ne (ctx : Context) (a : Arena kind kind.Record) (h : kind' ≠ kind) (r : Ref kind') :
    (ctx.withArena kind a).record? r = ctx.record? r := by
  rw [record?, arena_withArena_of_ne ctx a h]
  rfl

/-- An entity with a record is in the context. -/
theorem has_of_record? {ctx : Context} {r : Ref kind} {x : kind.Record} (h : ctx.record? r = some x) : ctx.Has r :=
  Arena.index_lt_of_get? _ h

/-- Each entity of a context has a record. -/
theorem exists_record? {ctx : Context} {r : Ref kind} (h : ctx.Has r) : ∃ x, ctx.record? r = some x :=
  Arena.exists_get? _ h

/-- An insertion adds one entity to the arena of its kind. -/
theorem size_insert (ctx : Context) (x : kind.Record) :
    ((ctx.insert kind x).2.arena kind).size = (ctx.arena kind).size + 1 := by
  simp [insert]

/-- An insertion leaves the arenas of the other kinds. -/
theorem arena_insert_of_ne (ctx : Context) (x : kind.Record) (h : kind' ≠ kind) :
    (ctx.insert kind x).2.arena kind' = ctx.arena kind' :=
  arena_withArena_of_ne ctx _ h

/-- An update adds and removes nothing, whatever the kind. -/
@[simp] theorem size_update (ctx : Context) (r : Ref kind) (f : kind.Record → kind.Record) (kind' : EntityKind) :
    ((ctx.update r f).arena kind').size = (ctx.arena kind').size := by
  by_cases h : kind' = kind
  · subst h
    simp [update]
  · rw [update, arena_withArena_of_ne ctx _ h]

/-- An update keeps what is in the context and adds nothing to it. -/
@[simp] theorem has_update (ctx : Context) (r : Ref kind) (f : kind.Record → kind.Record) (r' : Ref kind') :
    (ctx.update r f).Has r' ↔ ctx.Has r' := by
  simp [Has]

/-- A new entity is in the context afterwards. -/
theorem has_insert_self (ctx : Context) (x : kind.Record) : (ctx.insert kind x).2.Has (ctx.insert kind x).1 := by
  rw [Has, size_insert]
  exact Nat.lt_succ_self _

/-- What was in the context is in it after an insertion. -/
theorem Has.insert {ctx : Context} {r : Ref kind'} (h : ctx.Has r) (x : kind.Record) : (ctx.insert kind x).2.Has r := by
  by_cases hk : kind' = kind
  · subst hk
    rw [Has, size_insert]
    exact Nat.lt_succ_of_lt h
  · rw [Has, arena_insert_of_ne ctx x hk]
    exact h

/-- A new entity has the record that it was inserted with. -/
@[simp] theorem record?_insert_self (ctx : Context) (x : kind.Record) :
    (ctx.insert kind x).2.record? (ctx.insert kind x).1 = some x := by
  simp only [record?, insert, arena_withArena]
  exact Arena.get?_push_self _ x

/-- An insertion keeps the entities that are there. -/
theorem record?_insert_of_has {ctx : Context} {r : Ref kind'} (x : kind.Record) (h : ctx.Has r) :
    (ctx.insert kind x).2.record? r = ctx.record? r := by
  by_cases hk : kind' = kind
  · subst hk
    simp only [record?, insert, arena_withArena]
    exact Arena.get?_push_of_lt _ x h
  · rw [record?, arena_insert_of_ne ctx x hk]
    rfl

/-- An entity after an insertion was there before or is the inserted one. -/
theorem record?_insert_cases {ctx : Context} {x : kind.Record} {r : Ref kind'} {y : kind'.Record}
    (h : (ctx.insert kind x).2.record? r = some y) :
    ctx.record? r = some y ∨
      (⟨kind', r, y⟩ : (k : EntityKind) × Ref k × k.Record) = ⟨kind, (ctx.insert kind x).1, x⟩ := by
  by_cases hr : ctx.Has r
  · rw [record?_insert_of_has x hr] at h
    exact Or.inl h
  · right
    have hlt := has_of_record? h
    by_cases hk : kind' = kind
    · subst hk
      have heq : r = (ctx.insert kind' x).1 := by
        rw [Has, size_insert] at hlt
        rw [Has] at hr
        have hi : r.index = (ctx.arena kind').size := by omega
        exact Ref.eq_of_index hi
      subst heq
      rw [record?_insert_self] at h
      cases h
      rfl
    · rw [Has, arena_insert_of_ne ctx x hk] at hlt
      exact absurd hlt hr

/-- An update changes the record of its entity, if there is one. -/
@[simp] theorem record?_update_self (ctx : Context) (r : Ref kind) (f : kind.Record → kind.Record) :
    (ctx.update r f).record? r = (ctx.record? r).map f := by
  simp only [record?, update, arena_withArena]
  exact Arena.get?_modify_self _ r f

/-- An update keeps the other entities. -/
theorem record?_update_of_ne {ctx : Context} {r : Ref kind} {r' : Ref kind'} (f : kind.Record → kind.Record)
    (h : (⟨kind', r'⟩ : AnyRef) ≠ ⟨kind, r⟩) : (ctx.update r f).record? r' = ctx.record? r' := by
  by_cases hk : kind' = kind
  · subst hk
    simp only [record?, update, arena_withArena]
    refine Arena.get?_modify_of_ne _ f ?_
    intro hr
    exact h (by rw [hr])
  · rw [record?, update, arena_withArena_of_ne ctx _ hk]
    rfl

/-- An entity after an update is another one than the updated one, or the change of it. -/
theorem record?_update_cases {ctx : Context} {r : Ref kind} {f : kind.Record → kind.Record} {r' : Ref kind'}
    {y : kind'.Record} (h : (ctx.update r f).record? r' = some y) :
    (⟨kind', r'⟩ : AnyRef) ≠ ⟨kind, r⟩ ∧ ctx.record? r' = some y ∨
      ∃ x, ctx.record? r = some x ∧ (⟨kind', r', y⟩ : (k : EntityKind) × Ref k × k.Record) = ⟨kind, r, f x⟩ := by
  by_cases hr : (⟨kind', r'⟩ : AnyRef) = ⟨kind, r⟩
  · cases hr
    rw [record?_update_self] at h
    obtain ⟨x, hx, rfl⟩ := Option.map_eq_some_iff.1 h
    exact Or.inr ⟨x, hx, rfl⟩
  · rw [record?_update_of_ne f hr] at h
    exact Or.inl ⟨hr, h⟩

/-! ## Sets of entities that no reference leads out of -/

/-- The references that the entities of a set hold lead to entities of the set. -/
def ClosedUnder (ctx : Context) (P : AnyRef → Prop) : Prop :=
  ∀ ⦃kind : EntityKind⦄ (r : Ref kind) (x : kind.Record),
    P ⟨kind, r⟩ → ctx.record? r = some x → ∀ ref ∈ kind.references x, P ref

variable {ctx : Context} {P : AnyRef → Prop}

/-- An update whose references stay inside the set keeps it closed. -/
theorem ClosedUnder.update (h : ctx.ClosedUnder P) {r : Ref kind} {f : kind.Record → kind.Record}
    (hf : ∀ x, P ⟨kind, r⟩ → ctx.record? r = some x → ∀ ref ∈ kind.references (f x), P ref) :
    (ctx.update r f).ClosedUnder P := by
  intro kind' r' y hP hy ref href
  rcases record?_update_cases hy with ⟨-, hy⟩ | ⟨x, hx, heq⟩
  · exact h r' y hP hy ref href
  · cases heq
    exact hf x hP hx ref href

/-- One context has the entities of another one outside a set. -/
def AgreesOutside (ctx ctx' : Context) (P : AnyRef → Prop) : Prop :=
  ∀ ⦃kind : EntityKind⦄ (r : Ref kind), ¬P ⟨kind, r⟩ → ctx'.record? r = ctx.record? r

theorem AgreesOutside.refl (ctx : Context) (P : AnyRef → Prop) : ctx.AgreesOutside ctx P :=
  fun _ _ _ => rfl

/-- Two contexts that agree with a third one outside of a set of entities agree outside of it. -/
theorem AgreesOutside.trans {ctx₁ ctx₂ ctx₃ : Context} (h : ctx₁.AgreesOutside ctx₂ P)
    (h' : ctx₂.AgreesOutside ctx₃ P) : ctx₁.AgreesOutside ctx₃ P :=
  fun _ r hr => (h' r hr).trans (h r hr)

/-- An update of an entity of a set agrees with the context outside of the set. -/
theorem agreesOutside_update {r : Ref kind} (f : kind.Record → kind.Record) (hr : P ⟨kind, r⟩) :
    ctx.AgreesOutside (ctx.update r f) P := by
  intro kind' r' hr'
  refine record?_update_of_ne f ?_
  intro heq
  rw [heq] at hr'
  exact hr' hr

end Context

end ClusterPlan
