import ClusterPlan.Proofs.Duplication.Session

/-!
# Copies are isolated from their originals

What a session leaves behind: the originals as they were, faithful copies, and no reference from a new entity to an old one.
Rejecting group joins, merging groups and requiring sources among the copies therefore never reaches an original.
-/

namespace ClusterPlan

/-- A change that is made to entities after they were copied. -/
inductive Edit where
  | reject (join : GroupJoinId)
  | merge (into other : GroupId)
  | require (source : SourceId) (required : Bool)

namespace Edit

/-- The entities that an edit is made to. -/
def targets : Edit → List AnyRef
  | reject join => [⟨.groupJoin, join⟩]
  | merge into other => [⟨.group, into⟩, ⟨.group, other⟩]
  | require source _ => [⟨.source, source⟩]

def apply (ctx : Context) : Edit → Context
  | reject join => ctx.rejectGroupJoin join
  | merge into other => ctx.mergeGroups into other
  | require source required => ctx.setRequired source required

/-- An edit of entities of a closed set stays in the set. -/
theorem within_apply {ctx : Context} {P : AnyRef → Prop} (hclosed : ctx.ClosedUnder P) (hhas : ∀ ref, P ref → ctx.Has ref.2)
    {e : Edit} (ht : ∀ ref ∈ e.targets, P ref) : Context.Within P ctx (e.apply ctx) := by
  cases e with
  | reject join =>
    have hj := ht ⟨.groupJoin, join⟩ (by simp [targets])
    exact Context.within_rejectGroupJoin hclosed hj (hhas _ hj)
  | merge into other =>
    exact Context.within_mergeGroups hclosed (ht ⟨.group, into⟩ (by simp [targets])) (ht ⟨.group, other⟩ (by simp [targets]))
  | require source required => exact Context.within_setRequired (ht ⟨.source, source⟩ (by simp [targets])) required

/-- So do any edits one after the other. -/
theorem within_foldl_apply {ctx : Context} {P : AnyRef → Prop} (hclosed : ctx.ClosedUnder P)
    (hhas : ∀ ref, P ref → ctx.Has ref.2) (edits : List Edit) (ht : ∀ e ∈ edits, ∀ ref ∈ e.targets, P ref) :
    Context.Within P ctx (edits.foldl apply ctx) := by
  induction edits generalizing ctx with
  | nil => exact .refl P ctx
  | cons e edits ih =>
    have hfirst := within_apply hclosed hhas (ht e (by simp))
    refine hfirst.trans (ih (hfirst.closed hclosed) ?_ fun e' he' => ht e' (List.mem_cons_of_mem e he'))
    intro ref href
    rw [Context.Has, hfirst.size]
    exact hhas ref href

end Edit

namespace Duplication

variable {kind : EntityKind} {ctx : Context} {supply : Supply} {s : Duplication}

/-- A session has copied entities of a context without touching it. -/
structure Isolated (ctx : Context) (supply : Supply) (s : Duplication) : Prop where
  /-- Entities from before the session are unchanged. -/
  frame : ∀ ⦃kind : EntityKind⦄ (r : Ref kind), ctx.Has r → s.ctx.record? r = ctx.record? r
  /-- Conditions from before the session belong to the group joins that they belonged to. -/
  joins : ∀ c : ConditionId, c.value < supply.next → s.ctx.joinOfCondition? c = ctx.joinOfCondition? c
  /-- The new entities are the copies, and originals and copies are paired one to one. -/
  copies : ∀ ⦃kind : EntityKind⦄ (r : Ref kind), (∃ old, s.Copies old r) ↔ s.ctx.Has r ∧ ¬ctx.Has r
  paired : ∀ kind, ((s.entries kind).map (·.1)).Nodup ∧ ((s.entries kind).map (·.2)).Nodup
  /-- A call answers with the copy. -/
  answers : ∀ ⦃kind : EntityKind⦄ (r : Ref kind), s.ctx.Has r → (entity kind r s).2.Copies r (entity kind r s).1
  /-- Each reference of a copy is the copy of what the original refers to, and all else is equal. -/
  faithful : ∀ ⦃kind : EntityKind⦄ (old new : Ref kind), s.Copies old new →
    ∃ x y, s.ctx.record? old = some x ∧ s.ctx.record? new = some y ∧ s.Faithful kind x y
  /-- The uses of a copied node are the copied sources on it, each once. -/
  uses : ∀ (old new : NodeId) (y : TableNode), s.Copies old new → s.ctx.record? new = some y →
    y.uses.Nodup ∧ ∀ r, r ∈ y.uses ↔ (∃ o, s.Copies o r) ∧ ∃ x : TableSource, s.ctx.record? r = some x ∧ x.node = new
  /-- The conditions of a copy are new. -/
  conditions : ∀ old new, s.CopiesCondition old new → supply.next ≤ new.value
  /-- No new entity refers to an old one. -/
  closed : ∀ ⦃kind : EntityKind⦄ (r : Ref kind) (x : kind.Record), ¬ctx.Has r → s.ctx.record? r = some x →
    ∀ ref ∈ kind.references x, s.ctx.Has ref.2 ∧ ¬ctx.Has ref.2
  /-- Edits of copies leave all entities from before the session unchanged. -/
  edits : ∀ edits : List Edit, (∀ e ∈ edits, ∀ ref ∈ e.targets, ∃ old, s.Copies old ref.2) →
    ∀ ⦃kind : EntityKind⦄ (r : Ref kind), ctx.Has r → (edits.foldl Edit.apply s.ctx).record? r = ctx.record? r

/-- The references of an entity are those without its uses, and its uses. -/
theorem mem_references {x : kind.Record} {ref : AnyRef} (h : ref ∈ kind.references x) :
    ref ∈ kind.references (kind.bare x) ∨
      ∃ (n : TableNode) (r : SourceId), (⟨kind, x⟩ : (k : EntityKind) × k.Record) = ⟨.node, n⟩ ∧ r ∈ n.uses ∧ ref = ⟨.source, r⟩ := by
  cases kind with
  | node =>
    simp only [EntityKind.references, EntityKind.bare, List.map_nil, List.append_nil, List.mem_cons, List.mem_append] at h ⊢
    rcases h with h | h | h
    · exact Or.inl (Or.inl h)
    · exact Or.inl (Or.inr h)
    · obtain ⟨r, hr, rfl⟩ := List.mem_map.1 h
      exact Or.inr ⟨_, r, rfl, hr, rfl⟩
  | _ => exact Or.inl h

/-- Between the calls of a session all references of new entities lead to new entities. -/
theorem InSession.closed {s₀ : Duplication} {input : Context} (h : InSession s₀ input [] s) {r : Ref kind} {x : kind.Record}
    (hr : ¬s₀.ctx.Has r) (hx : s.ctx.record? r = some x) : ∀ ref ∈ kind.references x, ∃ old, s.Copies old ref.2 := by
  intro ref href
  obtain ⟨old, hold⟩ := h.exists_copies (Context.has_of_record? hx) hr
  rcases mem_references href with href | ⟨n, u, heq, hu, rfl⟩
  · obtain ⟨_, -, hf⟩ := h.exists_original hold hx
    exact hf.exists_copies ref href
  · cases heq
    exact (((h.uses old r _ hold hx).2 u).1 hu).1

/-- Every session on a reachable context isolates its copies. -/
theorem isolated_of_session (hctx : Reached ctx supply) (hs : Session ctx supply s) : Isolated ctx supply s := by
  have h := hs.inSession hctx.wellFormed
  have hcopies : ∀ {kind : EntityKind} (r : Ref kind), (∃ old, s.Copies old r) ↔ s.ctx.Has r ∧ ¬ctx.Has r := by
    intro kind r
    constructor
    · rintro ⟨old, hold⟩
      exact ⟨h.has_copy hold, h.not_has_copy hold⟩
    · rintro ⟨hr, hnew⟩
      exact h.exists_copies hr hnew
  have hclosed : s.ctx.ClosedUnder fun ref => s.ctx.Has ref.2 ∧ ¬ctx.Has ref.2 := by
    intro kind r x hr hx ref href
    exact (hcopies ref.2).1 (h.closed hr.2 hx ref href)
  refine
    { frame := h.frame, joins := h.joins, copies := fun _ r => hcopies r
      paired := ?paired, answers := ?answers, faithful := ?faithful, uses := ?uses
      conditions := ?conditions, closed := ?closed, edits := ?edits }
  case paired =>
    intro kind
    exact ⟨(h.table kind).originals, (h.table kind).copies⟩
  case answers =>
    intro kind r hr
    exact (keeps_entity h.wellFormed.closed hr s h).2.2
  case faithful =>
    intro kind old new hc
    exact h.faithful old new hc (by simp)
  case uses =>
    intro old new y hc hy
    have huses := h.uses old new y hc hy
    simp only [List.not_mem_nil, not_false_eq_true, true_and] at huses
    exact huses
  case conditions =>
    intro old new hc
    exact (h.numbered.condition_drawn hc).1
  case closed =>
    intro kind r x hr hx
    exact hclosed r x ⟨Context.has_of_record? hx, hr⟩ hx
  case edits =>
    intro edits htargets kind r hr
    have hwithin := Edit.within_foldl_apply hclosed (fun _ href => href.1) edits fun e he ref href =>
      (hcopies ref.2).1 (htargets e he ref href)
    rw [hwithin.outside r fun hnot => hnot.2 hr]
    exact h.frame r hr

end Duplication

open Duplication

namespace OrdersOfCustomers

def customers : Catalog.Table := .root ⟨1, "customers", 0, []⟩

def orders : Catalog.Table := .child ⟨2, "orders", 1, []⟩ [] customers

/-- The orders hang below the customers. -/
def link : Catalog.Join := ⟨"orders_of", customers, []⟩

/-- A tree with both tables, a source of the customers and two of the orders. -/
def sources : Context :=
  let ctx := (((Context.withConfig {}).addTree none).2.nodeFor ⟨0⟩ orders).2
  (((ctx.addSource ⟨0⟩ "c" true).2.addSource ⟨1⟩ "o" true).2.addSource ⟨1⟩ "p" true).2

/-- Adds a join from a source of the customers to one of the orders. -/
def joinOrders (ctx : Context) (group : GroupId) (child : SourceId) (conditions : List ConditionId) : Context :=
  match ctx.addGroupJoin group ⟨0⟩ child conditions link with
  | .ok (_, ctx) => ctx
  | .error _ => ctx

/-- Both orders are joined to the customers, each in a group of its own. -/
def joined : Context :=
  let ctx := joinOrders (sources.addGroup ⟨0⟩).2 ⟨0⟩ ⟨1⟩ [⟨1⟩]
  joinOrders (ctx.addGroup ⟨2⟩).2 ⟨1⟩ ⟨2⟩ [⟨2⟩]

/-- The second group goes into the first. -/
def together : Context := joined.mergeGroups ⟨0⟩ ⟨1⟩

/-- The group with both joins is copied, after the numbers of the two conditions were drawn. -/
def duplicated : Duplication := (entity .group ⟨0⟩ { ctx := together, supply := ⟨3⟩ }).2

theorem reached_sources : Reached sources {} :=
  .addSource ⟨1⟩ "p" true (.addSource ⟨1⟩ "o" true (.addSource ⟨0⟩ "c" true
    (.nodeFor ⟨0⟩ orders (.addTree none (.start {})) (by decide)) (by decide)) (by decide)) (by decide)

theorem reached_joined : Reached joined {} := by
  have hfirst : Reached (joinOrders (sources.addGroup ⟨0⟩).2 ⟨0⟩ ⟨1⟩ [⟨1⟩]) {} :=
    .addGroupJoin ⟨0⟩ ⟨0⟩ ⟨1⟩ [⟨1⟩] link (.addGroup ⟨0⟩ reached_sources (by decide)) (by decide) (by decide) (by decide) rfl
  exact .addGroupJoin ⟨1⟩ ⟨0⟩ ⟨2⟩ [⟨2⟩] link (.addGroup ⟨2⟩ hfirst (by decide)) (by decide) (by decide) (by decide) rfl

theorem reached_together : Reached together {} :=
  .mergeGroups ⟨0⟩ ⟨1⟩ reached_joined (by decide) (by decide)

/-- A copied join is rejected, and the copy of a source is no longer required. -/
def edits : List Edit := [.reject ⟨2⟩, .require ⟨4⟩ false]

end OrdersOfCustomers

open OrdersOfCustomers in
/-- Customers with two sources of orders on one node are copied, joins included. When the copies are edited afterwards, the
group of the originals keeps both joins and their group joins the sources that they had. -/
theorem isolated_of_copied_orders :
    duplicated.entries .source = [(⟨2⟩, ⟨5⟩), (⟨1⟩, ⟨4⟩), (⟨0⟩, ⟨3⟩)] ∧ duplicated.entries .node = [(⟨0⟩, ⟨2⟩), (⟨1⟩, ⟨3⟩)] ∧
      duplicated.entries .groupJoin = [(⟨1⟩, ⟨3⟩), (⟨0⟩, ⟨2⟩)] ∧ (duplicated.ctx.nodes.get ⟨3⟩).uses = [⟨4⟩, ⟨5⟩] ∧
      Isolated together ⟨3⟩ duplicated ∧
      ((edits.foldl Edit.apply duplicated.ctx).groups.get ⟨2⟩).joins = [⟨3⟩] ∧
      ∀ g : GroupId, together.Has g → (edits.foldl Edit.apply duplicated.ctx).record? g = together.record? g := by
  have hisolated : Isolated together ⟨3⟩ duplicated :=
    isolated_of_session reached_together.draw.draw (.entity ⟨0⟩ .start (by decide))
  have hjoins : duplicated.entries .groupJoin = [(⟨1⟩, ⟨3⟩), (⟨0⟩, ⟨2⟩)] := by decide +kernel
  have hsources : duplicated.entries .source = [(⟨2⟩, ⟨5⟩), (⟨1⟩, ⟨4⟩), (⟨0⟩, ⟨3⟩)] := by decide +kernel
  have htargets : ∀ e ∈ edits, ∀ ref ∈ e.targets, ∃ old, duplicated.Copies old ref.2 := by
    intro e he ref href
    rcases List.mem_pair.1 he with rfl | rfl
    · obtain rfl := List.mem_singleton.1 href
      exact ⟨⟨0⟩, by simp [Copies, hjoins]⟩
    · obtain rfl := List.mem_singleton.1 href
      exact ⟨⟨1⟩, by simp [Copies, hsources]⟩
  exact ⟨hsources, by decide +kernel, hjoins, by decide +kernel, hisolated, by decide +kernel,
    fun g hg => hisolated.edits edits htargets g hg⟩

end ClusterPlan
