import ClusterPlan.Proofs.Duplication.Renames

/-!
# The renaming of a session

A session gives numbers and copies to finitely many things. `renamingOf` extends that to all of them without a clash:
what the session did not copy is moved past what it made. It is injective and agrees with the session.
-/

namespace ClusterPlan

namespace Duplication

variable {kind : EntityKind} {ctx : Context} {supply : Supply} {s s₀ : Duplication} {input : Context} {pending : List AnyRef}

/-- The number or the entity of a mention was made between two states of a session. -/
def Made (s₀ s : Duplication) : Mention → Prop
  | .planNode id | .column id => s₀.supply.next ≤ id ∧ id < s.supply.next
  | .condition c => s₀.supply.next ≤ c.value ∧ c.value < s.supply.next
  | .entity ref => ¬s₀.ctx.Has ref.2 ∧ s.ctx.Has ref.2

/-! ## Past what was made -/

/-- A number from a bound on is moved past the numbers up to another bound. -/
def shift (lo hi n : Int) : Int := if n < lo then n else n + (hi - lo)

/-- Shifting the numbers from a place on keeps different numbers different. -/
theorem shift_injective {lo hi : Int} (h : lo ≤ hi) : Function.Injective (shift lo hi) := by
  intro a b hab
  unfold shift at hab
  split at hab <;> split at hab <;> omega

/-- A shift leaves a gap, into which no number is moved. -/
theorem shift_outside {lo hi : Int} (n : Int) : ¬(lo ≤ shift lo hi n ∧ shift lo hi n < hi) := by
  unfold shift
  split <;> omega

/-- An entity from a size on is moved past the entities up to another size. -/
def shiftRef (lo hi : Nat) (r : Ref kind) : Ref kind :=
  ⟨if r.index < lo then r.index else r.index + (hi - lo)⟩

/-- A shifted reference has its place, or one that lies behind the gap. -/
theorem index_shiftRef (lo hi : Nat) (r : Ref kind) :
    (shiftRef lo hi r).index = if r.index < lo then r.index else r.index + (hi - lo) :=
  rfl

/-- Shifting keeps different references different. -/
theorem shiftRef_injective (lo hi : Nat) : Function.Injective (shiftRef lo hi : Ref kind → Ref kind) := by
  intro a b hab
  have hindex := congrArg Ref.index hab
  rw [index_shiftRef, index_shiftRef] at hindex
  refine Ref.eq_of_index ?_
  split at hindex <;> split at hindex <;> omega

/-- No reference is shifted into the gap. -/
theorem shiftRef_outside {lo hi : Nat} (r : Ref kind) : ¬(lo ≤ (shiftRef lo hi r).index ∧ (shiftRef lo hi r).index < hi) := by
  rw [index_shiftRef]
  split <;> omega

/-! ## The renaming -/

/-- What stands for each thing after a session that began with a given state; the texts of statements are erased. -/
def renamingOf (s₀ s : Duplication) : Renaming where
  planNode id := (s.planNodes.lookup id).getD (shift s₀.supply.next s.supply.next id)
  condition c := (s.conditions.lookup c).getD ⟨shift s₀.supply.next s.supply.next c.value⟩
  entity kind r := ((s.entries kind).lookup r).getD (shiftRef (s₀.ctx.arena kind).size (s.ctx.arena kind).size r)
  statement _ := none

namespace InSession

variable (h : InSession s₀ input pending s)
include h

/-- The renaming that is read off a session keeps different things different. -/
theorem renamingOf_injective : (renamingOf s₀ s).Injective := by
  obtain ⟨hnodes, hconditions, -⟩ := List.nodup_append.1 h.numbered.distinct
  refine ⟨?_, ?_, ?_⟩
  · refine injective_lookup_getD hnodes (shift_injective h.numbered.start_le) ?_
    intro id hmem
    obtain ⟨entry, hentry, heq⟩ := List.mem_map.1 hmem
    exact shift_outside id (heq ▸ h.numbered.planNode_drawn hentry)
  · have hvalues : (s.conditions.map (·.2)).Nodup := by
      have hmap : s.conditions.map (·.2.value) = (s.conditions.map (·.2)).map ConditionId.value := by
        rw [List.map_map]
        rfl
      rw [hmap] at hconditions
      exact hconditions.of_map
    refine injective_lookup_getD hvalues ?_ ?_
    · intro c c' heq
      have hvalue := shift_injective h.numbered.start_le (congrArg ConditionId.value heq)
      cases c
      cases c'
      exact congrArg ConditionId.mk hvalue
    · intro c hmem
      obtain ⟨entry, hentry, heq⟩ := List.mem_map.1 hmem
      have hdrawn := h.numbered.condition_drawn hentry
      rw [heq] at hdrawn
      exact shift_outside c.value hdrawn
  · intro kind
    have htable := h.table kind
    refine injective_lookup_getD htable.copies (shiftRef_injective _ _) ?_
    intro r hmem
    exact shiftRef_outside r ((htable.mem_copies _).1 hmem)

/-- The renaming that is read off a session takes originals to their copies. -/
theorem renamingOf_agrees : (renamingOf s₀ s).Agrees s := by
  refine ⟨?_, ?_, ?_, fun _ => rfl⟩
  · intro old new hmem
    change (s.planNodes.lookup old).getD _ = new
    rw [lookup_of_mem h.numbered.planNodes hmem, Option.getD_some]
  · intro old new hc
    change (s.conditions.lookup old).getD _ = new
    rw [lookup_of_mem h.numbered.conditions hc, Option.getD_some]
  · intro kind old new hc
    change ((s.entries kind).lookup old).getD _ = new
    rw [lookup_of_mem (h.table kind).originals hc, Option.getD_some]

/-- Under a renaming that agrees with a session, what the session has a number or a copy for is renamed to what was made. -/
theorem made_rename {ρ : Renaming} (hρ : ρ.Agrees s) {m : Mention} (hm : s.Knows m) : Made s₀ s (m.rename ρ) := by
  cases m with
  | planNode id | column id =>
    obtain ⟨entry, hentry, rfl⟩ := List.mem_map.1 hm
    rw [Mention.rename, hρ.planNode entry.1 entry.2 hentry]
    exact h.numbered.planNode_drawn hentry
  | condition c =>
    obtain ⟨entry, hentry, rfl⟩ := List.mem_map.1 hm
    rw [Mention.rename, hρ.condition entry.1 entry.2 hentry]
    exact h.numbered.condition_drawn hentry
  | entity ref =>
    obtain ⟨kind, r⟩ := ref
    obtain ⟨entry, hentry, rfl⟩ := List.mem_map.1 hm
    rw [Mention.rename, hρ.entity entry.1 entry.2 hentry]
    exact ⟨h.not_has_copy hentry, h.has_copy hentry⟩

end InSession

end Duplication

end ClusterPlan
