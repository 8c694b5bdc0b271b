import ClusterPlan.Proofs.Context.GroupEdits

/-!
# Conditions and their group joins

A context notes which group joins a condition belongs to, the latest one first. What is noted is what the group joins say: a
condition is noted for exactly the group joins that have it (`Registered`), whether they are accepted, rejected or merged into
another group. Only a new group join brings conditions; all other operations keep them (`SameConditions`).
-/

namespace ClusterPlan.Context

variable {ctx ctx' : Context} {pending : List AnyRef} {bound : Int}

/-- A group join has a condition. -/
def HasCondition (ctx : Context) (j : GroupJoinId) (c : ConditionId) : Prop :=
  ∃ x : GroupJoin, ctx.record? j = some x ∧ c ∈ x.conditions

/-- A join with a condition is in the context. -/
theorem HasCondition.has {j : GroupJoinId} {c : ConditionId} (h : ctx.HasCondition j c) : ctx.Has j := by
  obtain ⟨x, hx, -⟩ := h
  exact has_of_record? hx

/-- A condition is noted for exactly the group joins that have it. Pending ones are left out: nothing is noted for them. -/
def Registered (ctx : Context) (pending : List AnyRef) : Prop :=
  ∀ (c : ConditionId) (j : GroupJoinId),
    (c, j) ∈ ctx.conditionJoins ↔ ctx.HasCondition j c ∧ (⟨.groupJoin, j⟩ : AnyRef) ∉ pending

/-- The conditions of all group joins were drawn before a number. -/
def ConditionsBelow (ctx : Context) (bound : Int) : Prop := ∀ j c, ctx.HasCondition j c → c.value < bound

/-- Conditions below a number are below every greater one. -/
theorem ConditionsBelow.mono {bound' : Int} (h : ctx.ConditionsBelow bound) (hle : bound ≤ bound') :
    ctx.ConditionsBelow bound' :=
  fun j c hc => Int.lt_of_lt_of_le (h j c hc) hle

/-- One context has the conditions of another one, in the same group joins. -/
structure SameConditions (ctx ctx' : Context) : Prop where
  noted : ctx'.conditionJoins = ctx.conditionJoins
  held : ∀ j c, ctx'.HasCondition j c ↔ ctx.HasCondition j c

/-- What is noted and what joins have decides whether both agree. -/
theorem Registered.of_same (h : ctx.Registered pending) (hs : ctx.SameConditions ctx') : ctx'.Registered pending := by
  intro c j
  rw [hs.noted, hs.held, h c j]

/-- The same conditions are below the same numbers. -/
theorem ConditionsBelow.of_same (h : ctx.ConditionsBelow bound) (hs : ctx.SameConditions ctx') : ctx'.ConditionsBelow bound :=
  fun j c hc => h j c ((hs.held j c).1 hc)

/-! ## Operations that keep conditions -/

/-- The same joins and the same notes give the same conditions. -/
theorem sameConditions_of_arena (hj : ctx'.groupJoins = ctx.groupJoins) (hc : ctx'.conditionJoins = ctx.conditionJoins) :
    ctx.SameConditions ctx' := by
  refine ⟨hc, fun j c => ?_⟩
  have hrecord : ctx'.record? j = ctx.record? j := congrArg (Arena.get? · j) hj
  rw [HasCondition, hrecord, HasCondition]

/-- Group joins can change, their conditions apart. -/
theorem sameConditions_of_map {f : GroupJoinId → GroupJoin → GroupJoin} (hc : ctx'.conditionJoins = ctx.conditionJoins)
    (hj : ∀ j : GroupJoinId, ctx'.record? j = (ctx.record? j).map (f j)) (hf : ∀ j x, (f j x).conditions = x.conditions) :
    ctx.SameConditions ctx' := by
  refine ⟨hc, fun j c => ?_⟩
  rw [HasCondition, hj, HasCondition]
  simp only [Option.map_eq_some_iff, ↓existsAndEq, and_true, hf]

/-- Nothing is noted for conditions when the node of a table is looked for. -/
theorem conditionJoins_nodeFor (tree : TreeId) (table : Catalog.Table) :
    (ctx.nodeFor tree table).2.conditionJoins = ctx.conditionJoins := by
  induction table with
  | root info =>
    unfold nodeFor
    split <;> rfl
  | child info key parent ih =>
    unfold nodeFor
    split
    · rfl
    · exact ih

/-- Looking for the node of a table concerns no conditions. -/
theorem sameConditions_nodeFor (tree : TreeId) (table : Catalog.Table) : ctx.SameConditions (ctx.nodeFor tree table).2 :=
  sameConditions_of_arena (ctx.arenas_nodeFor tree table).2.1 (conditionJoins_nodeFor tree table)

/-- A rejected join keeps its conditions, and what is noted for them stays. -/
theorem sameConditions_rejectGroupJoin {id : GroupJoinId} (hid : ctx.Has id) : ctx.SameConditions (ctx.rejectGroupJoin id) := by
  obtain ⟨x, hx⟩ := exists_record? hid
  cases hr : x.rejected with
  | true =>
    rw [rejectGroupJoin_of_rejected hx hr]
    exact sameConditions_of_arena rfl rfl
  | false =>
    refine sameConditions_of_map ?_ (record?_groupJoin_rejectGroupJoin hx hr) ?_
    · rw [rejectGroupJoin_of_accepted hx hr]
      simp only [conditionJoins_update]
    · intro j y
      split <;> rfl

/-- Joins keep their conditions when their group is merged. -/
theorem sameConditions_mergeGroups {into other : GroupId} (ho : ctx.Has other) :
    ctx.SameConditions (ctx.mergeGroups into other) := by
  obtain ⟨g, hg⟩ := exists_record? ho
  by_cases hne : into = other
  · subst hne
    rw [mergeGroups_self]
    exact sameConditions_of_arena rfl rfl
  · refine sameConditions_of_map ?_ (record?_groupJoin_mergeGroups hg hne) ?_
    · rw [mergeGroups_of_ne hg hne]
      simp only [conditionJoins_update, foldl_update_eq, conditionJoins_withArena]
    · intro j y
      split <;> rfl

/-! ## A new group join -/

section AddGroupJoin

variable {group : GroupId} {parent child : SourceId} {conditions : List ConditionId} {join : Catalog.Join} {id : GroupJoinId}
  (hok : ctx.addGroupJoin group parent child conditions join = .ok (id, ctx'))
include hok

/-- Adding a join notes it for each of its conditions, in front of what was noted before. -/
theorem conditionJoins_addGroupJoin : ctx'.conditionJoins = (conditions.map fun c => (c, id)).reverse ++ ctx.conditionJoins := by
  obtain ⟨hj, rfl⟩ := addGroupJoin_ok hok
  rw [addGroupJoin_eq hj] at hok
  simp only [Except.ok.injEq, Prod.mk.injEq, true_and] at hok
  subst hok
  simp only [conditionJoins_update, joinGroup_eq]
  rfl

/-- The conditions of a new group join are those that it is given. -/
theorem hasCondition_addGroupJoin {j : GroupJoinId} {c : ConditionId} :
    ctx'.HasCondition j c ↔ j = id ∧ c ∈ conditions ∨ ctx.HasCondition j c := by
  rw [HasCondition, record?_groupJoin_addGroupJoin hok]
  by_cases hj : j = id
  · have hnew : ¬ctx.HasCondition j c := fun h => not_has_addGroupJoin hok (hj ▸ h.has)
    simp [hj, hj ▸ hnew]
  · simp [hj, HasCondition]

/-- Adding a join notes it for the conditions that it has. -/
theorem Registered.addGroupJoin (h : ctx.Registered []) : ctx'.Registered [] := by
  intro c j
  rw [conditionJoins_addGroupJoin hok, List.mem_append, hasCondition_addGroupJoin hok, h c j]
  simp only [List.mem_reverse, List.mem_map, Prod.mk.injEq, List.not_mem_nil, not_false_eq_true, and_true]
  refine or_congr_left ?_
  constructor
  · rintro ⟨c', hc', rfl, rfl⟩
    exact ⟨rfl, hc'⟩
  · rintro ⟨rfl, hc⟩
    exact ⟨c, hc, rfl, rfl⟩

/-- The conditions of an added join are below a number if those that it is given are. -/
theorem ConditionsBelow.addGroupJoin (h : ctx.ConditionsBelow bound) (hc : ∀ c ∈ conditions, c.value < bound) :
    ctx'.ConditionsBelow bound := by
  intro j c hhas
  rcases (hasCondition_addGroupJoin hok).1 hhas with ⟨-, hmem⟩ | hold
  · exact hc c hmem
  · exact h j c hold

end AddGroupJoin

end ClusterPlan.Context
