import ClusterPlan.Proofs.Context.Registered
import ClusterPlan.Proofs.Duplication.Tables

/-!
# Tags of conditions

A comparison is to be carried out by a group join if an accepted one has its condition, and could be if only rejected ones have
it (`TagFollows`). The context asks the group join that was noted last for the condition. So its answer is wrong exactly if
that one is rejected while another one with the condition is accepted (`Misled`), and rejecting a group join is the one
operation on groups that can bring this about.
-/

namespace ClusterPlan.Context

variable {ctx ctx' : Context} {c : ConditionId} {j : GroupJoinId}

/-- A group join is there and not rejected. -/
def Accepted (ctx : Context) (j : GroupJoinId) : Prop := ∃ x : GroupJoin, ctx.record? j = some x ∧ x.rejected = false

instance (ctx : Context) (j : GroupJoinId) : Decidable (ctx.Accepted j) :=
  decidable_of_iff ((ctx.record? j).map GroupJoin.rejected = some false) Option.map_eq_some_iff

/-- How a comparison is carried out follows the group joins that have its condition. -/
structure TagFollows (ctx : Context) (c : ComparisonHead) : Prop where
  accepted : (∃ j, ctx.HasCondition j c.id ∧ ctx.Accepted j) → ctx.implementationOf c = .groupJoin
  rejected : (∃ j, ctx.HasCondition j c.id) → (∀ j, ctx.HasCondition j c.id → ¬ctx.Accepted j) →
    ctx.implementationOf c = .potentialGroupJoin
  free : (∀ j, ¬ctx.HasCondition j c.id) → ctx.implementationOf c = c.implementation

/-- The group join that was noted last for a condition is not accepted, and another one that has the condition is. -/
def Misled (ctx : Context) (c : ConditionId) : Prop :=
  ∃ j, ctx.joinOfCondition? c = some j ∧ ¬ctx.Accepted j ∧ ∃ j', ctx.HasCondition j' c ∧ ctx.Accepted j'

/-- An accepted join is in the context. -/
theorem Accepted.has (h : ctx.Accepted j) : ctx.Has j := by
  obtain ⟨x, hx, -⟩ := h
  exact has_of_record? hx

/-! ## The group join that was noted last -/

/-- A join that is noted for a condition has the condition. -/
theorem Registered.hasCondition_of_noted (hreg : ctx.Registered []) (h : ctx.joinOfCondition? c = some j) :
    ctx.HasCondition j c :=
  ((hreg c j).1 (Duplication.mem_of_lookup h)).1

/-- For a condition that a group join has, one is noted. -/
theorem Registered.exists_noted (hreg : ctx.Registered []) (h : ctx.HasCondition j c) :
    ∃ j', ctx.joinOfCondition? c = some j' := by
  refine Option.ne_none_iff_exists'.1 fun hnone => ?_
  exact Duplication.not_mem_keys_of_lookup hnone (List.mem_map_of_mem ((hreg c j).2 ⟨h, List.not_mem_nil⟩))

/-- A condition with a noted join is carried out as a group join, or could be if that join is rejected. -/
theorem implementationOf_of_noted {c : ComparisonHead} {x : GroupJoin} (h : ctx.joinOfCondition? c.id = some j)
    (hx : ctx.record? j = some x) :
    ctx.implementationOf c = if x.rejected then .potentialGroupJoin else .groupJoin := by
  have hget : ctx.groupJoins.get j = x := Arena.get_of_get? _ hx
  rw [implementationOf, h]
  dsimp only
  rw [hget]

/-- The context is right about a comparison exactly if it is not misled by the group join that was noted last. -/
theorem tagFollows_iff (hreg : ctx.Registered []) (c : ComparisonHead) : ctx.TagFollows c ↔ ¬ctx.Misled c.id := by
  constructor
  · rintro h ⟨j, hnoted, hrejected, hothers⟩
    obtain ⟨x, hx, -⟩ := hreg.hasCondition_of_noted hnoted
    have htag := h.accepted hothers
    rw [implementationOf_of_noted hnoted hx] at htag
    cases hr : x.rejected with
    | false => exact hrejected ⟨x, hx, hr⟩
    | true =>
      rw [hr] at htag
      cases htag
  -- The tag is read off the join that was noted last. If that one is rejected, all joins on the comparison are, as the
  -- context is not misled.
  · intro h
    cases hnoted : ctx.joinOfCondition? c.id with
    | none =>
      have hnone : ∀ j, ¬ctx.HasCondition j c.id := by
        intro j hj
        obtain ⟨j', hj'⟩ := hreg.exists_noted hj
        rw [hnoted] at hj'
        cases hj'
      refine ⟨?_, ?_, fun _ => by rw [implementationOf, hnoted]⟩
      · rintro ⟨j, hj, -⟩
        exact absurd hj (hnone j)
      · rintro ⟨j, hj⟩
        exact absurd hj (hnone j)
    | some j =>
      have hhas := hreg.hasCondition_of_noted hnoted
      obtain ⟨x, hx⟩ := exists_record? hhas.has
      have htag := implementationOf_of_noted hnoted hx
      cases hr : x.rejected with
      | false =>
        rw [hr] at htag
        exact ⟨fun _ => htag, fun _ hall => absurd ⟨x, hx, hr⟩ (hall j hhas), fun hnone => absurd hhas (hnone j)⟩
      | true =>
        have hrejected : ¬ctx.Accepted j := by
          rintro ⟨y, hy, hry⟩
          rw [hx] at hy
          cases hy
          rw [hr] at hry
          cases hry
        rw [hr] at htag
        exact ⟨fun hothers => absurd ⟨j, hnoted, hrejected, hothers⟩ h, fun _ _ => htag, fun hnone => absurd hhas (hnone j)⟩

/-! ## Operations that leave conditions and verdicts alone -/

/-- One context has the conditions of another one, and accepts the same group joins. -/
structure SameTags (ctx ctx' : Context) : Prop extends SameConditions ctx ctx' where
  accepted : ∀ j, ctx'.Accepted j ↔ ctx.Accepted j

/-- The same tags mislead for the same conditions. -/
theorem SameTags.misled_iff (h : ctx.SameTags ctx') (c : ConditionId) : ctx'.Misled c ↔ ctx.Misled c := by
  simp only [Misled, joinOfCondition?, h.noted, h.held, h.accepted]

/-- The same joins and the same notes give the same tags. -/
theorem sameTags_of_arena (hj : ctx'.groupJoins = ctx.groupJoins) (hc : ctx'.conditionJoins = ctx.conditionJoins) :
    ctx.SameTags ctx' := by
  refine ⟨sameConditions_of_arena hj hc, fun j => ?_⟩
  have hrecord : ctx'.record? j = ctx.record? j := congrArg (Arena.get? · j) hj
  rw [Accepted, hrecord, Accepted]

/-- Looking for the node of a table concerns no tags. -/
theorem sameTags_nodeFor (tree : TreeId) (table : Catalog.Table) : ctx.SameTags (ctx.nodeFor tree table).2 :=
  sameTags_of_arena (ctx.arenas_nodeFor tree table).2.1 (conditionJoins_nodeFor tree table)

/-- Joins keep their conditions, and stay accepted or rejected, when their group is merged. -/
theorem sameTags_mergeGroups {into other : GroupId} (ho : ctx.Has other) : ctx.SameTags (ctx.mergeGroups into other) := by
  refine ⟨sameConditions_mergeGroups ho, fun j => ?_⟩
  obtain ⟨g, hg⟩ := exists_record? ho
  by_cases hne : into = other
  · rw [hne, mergeGroups_self]
  · rw [Accepted, record?_groupJoin_mergeGroups hg hne, Accepted]
    simp only [Option.map_eq_some_iff, ↓existsAndEq, and_true]
    refine exists_congr fun x => and_congr_right fun _ => ?_
    split <;> rfl

/-! ## A new group join -/

/-- A list that notes one join for some conditions has the join for these and nothing for others. -/
theorem lookup_conditions (conditions : List ConditionId) (id : GroupJoinId) (c : ConditionId) :
    (conditions.map fun c => (c, id)).lookup c = if c ∈ conditions then some id else none := by
  induction conditions with
  | nil => rfl
  | cons c' conditions ih =>
    rw [List.map_cons, Duplication.lookup_cons_eq_ite, ih]
    by_cases hc : c = c' <;> simp [hc]

section AddGroupJoin

variable {group : GroupId} {parent child : SourceId} {conditions : List ConditionId} {join : Catalog.Join} {id : GroupJoinId}
  (hok : ctx.addGroupJoin group parent child conditions join = .ok (id, ctx'))
include hok

/-- Adding a join accepts it and changes nothing for the others. -/
theorem accepted_addGroupJoin : ctx'.Accepted j ↔ j = id ∨ ctx.Accepted j := by
  rw [Accepted, record?_groupJoin_addGroupJoin hok]
  by_cases hj : j = id
  · simp [hj]
  · simp [hj, Accepted]

/-- The last join that was added with a condition is the one that is found for it. -/
theorem joinOfCondition?_addGroupJoin (c : ConditionId) :
    ctx'.joinOfCondition? c = if c ∈ conditions then some id else ctx.joinOfCondition? c := by
  rw [joinOfCondition?, conditionJoins_addGroupJoin hok, List.lookup_append, ← List.map_reverse, lookup_conditions,
    joinOfCondition?]
  simp only [List.mem_reverse]
  split <;> rfl

/-- A new group join is accepted and noted last, so that it misleads about no condition. -/
theorem not_misled_addGroupJoin (h : ¬ctx.Misled c) : ¬ctx'.Misled c := by
  rintro ⟨j, hnoted, hrejected, j', hhas, haccepted⟩
  rw [accepted_addGroupJoin hok, not_or] at hrejected
  rw [joinOfCondition?_addGroupJoin hok] at hnoted
  split at hnoted
  · exact hrejected.1 (Option.some.inj hnoted).symm
  · rename_i hc
    have hold : ctx.HasCondition j' c := ((hasCondition_addGroupJoin hok).1 hhas).resolve_left fun hnew => hc hnew.2
    have hne : j' ≠ id := fun heq => not_has_addGroupJoin hok (heq ▸ hold.has)
    exact h ⟨j, hnoted, hrejected.2, j', hold, ((accepted_addGroupJoin hok).1 haccepted).resolve_left hne⟩

end AddGroupJoin

/-! ## A rejected group join -/

section RejectGroupJoin

variable {id : GroupJoinId} (hid : ctx.Has id)
include hid

/-- A rejection concerns the rejected join only. -/
theorem accepted_rejectGroupJoin : (ctx.rejectGroupJoin id).Accepted j ↔ j ≠ id ∧ ctx.Accepted j := by
  obtain ⟨x, hx⟩ := exists_record? hid
  cases hr : x.rejected with
  | true =>
    rw [rejectGroupJoin_of_rejected hx hr]
    refine ⟨fun h => ⟨?_, h⟩, fun h => h.2⟩
    rintro rfl
    obtain ⟨y, hy, hry⟩ := h
    rw [hx] at hy
    cases hy
    rw [hr] at hry
    cases hry
  | false =>
    rw [Accepted, record?_groupJoin_rejectGroupJoin hx hr, Accepted]
    by_cases hj : j = id <;> simp [hj]

/-- Rejecting a group join misleads about a condition exactly if the group join is the accepted one that was noted last for
the condition, and another accepted one has the condition. -/
theorem misled_rejectGroupJoin_iff (h : ¬ctx.Misled c) : (ctx.rejectGroupJoin id).Misled c ↔
    ctx.joinOfCondition? c = some id ∧ ∃ j, j ≠ id ∧ ctx.HasCondition j c ∧ ctx.Accepted j := by
  have hsame := sameConditions_rejectGroupJoin hid
  simp only [Misled, joinOfCondition?, hsame.noted, hsame.held, accepted_rejectGroupJoin hid]
  constructor
  · rintro ⟨j, hnoted, hrejected, j', hhas, hne, haccepted⟩
    by_cases hj : j = id
    · exact ⟨hj ▸ hnoted, j', hne, hhas, haccepted⟩
    · have hold : ¬ctx.Accepted j := fun hj' => hrejected ⟨hj, hj'⟩
      exact absurd ⟨j, hnoted, hold, j', hhas, haccepted⟩ h
  · rintro ⟨hnoted, j', hne, hhas, haccepted⟩
    exact ⟨id, hnoted, fun h => h.1 rfl, j', hhas, hne, haccepted⟩

end RejectGroupJoin

end ClusterPlan.Context
