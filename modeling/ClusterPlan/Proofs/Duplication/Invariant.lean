import ClusterPlan.Proofs.Duplication.Copies
import ClusterPlan.Proofs.Duplication.Tables

/-!
# What holds during a session

While an entity is being copied, its copy is pending: it still holds the references of the original. `InSession` says what
holds at any moment of a session, given the context that the current call started from and the pending copies: the entities
from before the session are untouched, the copies are exactly the entities that were added, and each copy that is not pending
is faithful and in the uses of its node.
-/

namespace ClusterPlan.Duplication

variable {kind kind' : EntityKind} {s₀ s s' : Duplication} {input : Context} {pending : List AnyRef}

/-- The numbers that were given to copies of plan nodes and of conditions. -/
def numbers (s : Duplication) : List Int := s.planNodes.map (·.2) ++ s.conditions.map (·.2.value)

/-- All numbers given in a session are different and were drawn in it. -/
structure Numbered (s₀ s : Duplication) : Prop where
  start_le : s₀.supply.next ≤ s.supply.next
  drawn : ∀ n ∈ s.numbers, s₀.supply.next ≤ n ∧ n < s.supply.next
  distinct : s.numbers.Nodup
  planNodes : (s.planNodes.map (·.1)).Nodup
  conditions : (s.conditions.map (·.1)).Nodup
  used : ∀ n ∈ s.used, n ∈ s.planNodes.map (·.2)

/-- Whether numbers are given properly depends on what was drawn and on the tables of copies only. -/
theorem Numbered.congr (h : Numbered s₀ s) (hs : s'.supply = s.supply) (hp : s'.planNodes = s.planNodes)
    (hc : s'.conditions = s.conditions) (hu : s'.used = s.used) : Numbered s₀ s' := by
  have hn : s'.numbers = s.numbers := by rw [numbers, hp, hc, numbers]
  constructor
  case start_le =>
    rw [hs]
    exact h.start_le
  case drawn =>
    rw [hn, hs]
    exact h.drawn
  case distinct =>
    rw [hn]
    exact h.distinct
  case planNodes =>
    rw [hp]
    exact h.planNodes
  case conditions =>
    rw [hc]
    exact h.conditions
  case used =>
    rw [hu, hp]
    exact h.used

/-- The number of a copied plan node was drawn in the session. -/
theorem Numbered.planNode_drawn (h : Numbered s₀ s) {old new : Int} (hmem : (old, new) ∈ s.planNodes) :
    s₀.supply.next ≤ new ∧ new < s.supply.next :=
  h.drawn new (List.mem_append_left _ (List.mem_map_of_mem hmem))

/-- The number of a copied condition was drawn in the session. -/
theorem Numbered.condition_drawn (h : Numbered s₀ s) {old new : ConditionId} (hc : s.CopiesCondition old new) :
    s₀.supply.next ≤ new.value ∧ new.value < s.supply.next :=
  h.drawn new.value (List.mem_append_right _ (List.mem_map_of_mem hc))

/-- A session has only added entities, each of them as the copy of one of the entities that the current call started from. -/
structure Additive (s₀ : Duplication) (input : Context) (s : Duplication) : Prop where
  wellFormed : s.ctx.WellFormed
  /-- What was there before the session is unchanged. -/
  frame : ∀ ⦃kind : EntityKind⦄ (r : Ref kind), s₀.ctx.Has r → s.ctx.record? r = s₀.ctx.record? r
  kept : input.KeepsBare s.ctx
  table : ∀ kind, Tabulates (s₀.ctx.arena kind).size (s.ctx.arena kind).size (input.arena kind).size (s.entries kind)
  noLoose : s.looseNodes = []
  numbered : Numbered s₀ s
  /-- Conditions from before the session belong to the group joins that they belonged to. -/
  joins : ∀ c : ConditionId, c.value < s₀.supply.next → s.ctx.joinOfCondition? c = s₀.ctx.joinOfCondition? c

/-- The copies that are not pending are finished. -/
structure InSession (s₀ : Duplication) (input : Context) (pending : List AnyRef) (s : Duplication) : Prop
    extends Additive s₀ input s where
  pendingNodup : pending.Nodup
  /-- Pending copies were made in the current call. Trees are copied at once. -/
  pendingNew : ∀ ref ∈ pending, (ref.1 ≠ .tree ∧ ¬input.Has ref.2) ∧ ∃ old, s.Copies old ref.2
  faithful : ∀ ⦃kind : EntityKind⦄ (old new : Ref kind), s.Copies old new → ⟨kind, new⟩ ∉ pending →
    ∃ x y, s.ctx.record? old = some x ∧ s.ctx.record? new = some y ∧ s.Faithful kind x y
  /-- A copied node has as its uses the finished copies of sources on it. -/
  uses : ∀ (old new : NodeId) (y : TableNode), s.Copies old new → s.ctx.record? new = some y →
    y.uses.Nodup ∧ ∀ r, r ∈ y.uses ↔
      (∃ o, s.Copies o r) ∧ (⟨.source, r⟩ : AnyRef) ∉ pending ∧ ∃ x : TableSource, s.ctx.record? r = some x ∧ x.node = new

namespace Additive

variable (h : Additive s₀ input s)
include h

/-- A copy is in the context. -/
theorem has_copy {old new : Ref kind} (hc : s.Copies old new) : s.ctx.Has new :=
  (((h.table kind).mem_copies new).1 (List.mem_map_of_mem hc)).2

/-- A copy was not in the context before the session. -/
theorem not_has_copy {old new : Ref kind} (hc : s.Copies old new) : ¬s₀.ctx.Has new :=
  Nat.not_lt.2 (((h.table kind).mem_copies new).1 (List.mem_map_of_mem hc)).1

/-- What has a copy was there when the current call began. -/
theorem input_has_original {old new : Ref kind} (hc : s.Copies old new) : input.Has old :=
  (h.table kind).lt_bound old (List.mem_map_of_mem hc)

/-- The originals and the copies that are noted are in the context. -/
theorem noted : s.Noted :=
  fun _ _ _ ha => ⟨h.kept.has (h.input_has_original ha), h.has_copy ha⟩

/-- What was there when the current call began is still there. -/
theorem has_of_input {r : Ref kind} (hr : input.Has r) : s.ctx.Has r :=
  h.kept.has hr

/-- What was there before the session is still there. -/
theorem has_of_start {r : Ref kind} (hr : s₀.ctx.Has r) : s.ctx.Has r := by
  obtain ⟨x, hx⟩ := Context.exists_record? hr
  rw [← h.frame r hr] at hx
  exact Context.has_of_record? hx

/-- Each entity that was added is a copy. -/
theorem exists_copies {r : Ref kind} (hr : s.ctx.Has r) (hnew : ¬s₀.ctx.Has r) : ∃ old, s.Copies old r := by
  obtain ⟨entry, hentry, rfl⟩ := List.mem_map.1 (((h.table kind).mem_copies r).2 ⟨Nat.not_lt.1 hnew, hr⟩)
  exact ⟨entry.1, hentry⟩

/-- A copy has one original. -/
theorem original_unique {old old' new : Ref kind} (hc : s.Copies old new) (hc' : s.Copies old' new) : old = old' :=
  key_unique (h.table kind).copies hc hc'

end Additive

namespace InSession

variable (h : InSession s₀ input [] s) {old new : Ref kind} {x : kind.Record}
include h

/-- Between calls each record of an original has a faithful copy. -/
theorem exists_copy (hc : s.Copies old new) (hx : s.ctx.record? old = some x) :
    ∃ y, s.ctx.record? new = some y ∧ s.Faithful kind x y := by
  obtain ⟨z, y, hz, hy, hf⟩ := h.faithful old new hc List.not_mem_nil
  obtain rfl : z = x := Option.some.inj (hz.symm.trans hx)
  exact ⟨y, hy, hf⟩

/-- Between calls each record of a copy is a faithful copy. -/
theorem exists_original (hc : s.Copies old new) (hx : s.ctx.record? new = some x) :
    ∃ y, s.ctx.record? old = some y ∧ s.Faithful kind y x := by
  obtain ⟨y, z, hy, hz, hf⟩ := h.faithful old new hc List.not_mem_nil
  obtain rfl : z = x := Option.some.inj (hz.symm.trans hx)
  exact ⟨y, hy, hf⟩

end InSession

end ClusterPlan.Duplication
