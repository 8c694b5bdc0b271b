import ClusterPlan.Proofs.Context.Tags
import ClusterPlan.Proofs.Duplication.JoinTags

/-!
# Tags along runs

How a comparison is carried out need not follow the group joins that have its condition (`not_tagFollows_of_shared_condition`).
It does in all states of a run exactly if no operation rejects the accepted group join that was noted last for a condition of
another accepted one, and no session copies a rejected group join after an accepted one with the same condition
(`tagFollows_iff_of_run`).
-/

namespace ClusterPlan

namespace Duplication

variable {s₀ s : Duplication} {input : Context} {j j' : GroupJoinId} {c c' : ConditionId}

/-- A join is accepted exactly if its copy is. -/
theorem InSession.accepted_copy (h : InSession s₀ input [] s) (hj : s.Copies j j') : s.ctx.Accepted j ↔ s.ctx.Accepted j' := by
  obtain ⟨x, y, hx, hy, -, -, -, -, -, hrejected⟩ := h.faithful j j' hj (by simp)
  simp [Context.Accepted, hx, hy, hrejected]

/-- A session accepts and rejects no join from before it. -/
theorem InSession.accepted_of_has (h : InSession s₀ input [] s) (hj : s₀.ctx.Has j) :
    s.ctx.Accepted j ↔ s₀.ctx.Accepted j := by
  rw [Context.Accepted, h.frame j hj, Context.Accepted]

/-- The copy of a rejected group join was noted last for a condition that the copy of an accepted one has. -/
def Misleads (s : Duplication) : Prop :=
  ∃ c c' j j', s.CopiesCondition c c' ∧ s.Copies j j' ∧ s.ctx.joinOfCondition? c' = some j' ∧ ¬s.ctx.Accepted j ∧
    ∃ i i', s.Copies i i' ∧ s.ctx.HasCondition i c ∧ s.ctx.Accepted i

/-- A session misleads about no condition from before, and about a copied one exactly in the order that is told. -/
theorem InSession.not_misled_iff (h : InSession s₀ input [] s) (hreg₀ : s₀.ctx.Registered []) (hreg : s.ctx.Registered [])
    (hbelow : s₀.ctx.ConditionsBelow s₀.supply.next) (hold : ∀ c, ¬s₀.ctx.Misled c) :
    (∀ c, ¬s.ctx.Misled c) ↔ ¬s.Misleads := by
  constructor
  · rintro hnone ⟨c, c', j, j', hc, hj, hnoted, hrejected, i, i', hi, hhas, haccepted⟩
    exact hnone c' ⟨j', hnoted, fun hj' => hrejected ((h.accepted_copy hj).2 hj'), i', (h.hasCondition_copy hi hc).1 hhas,
      (h.accepted_copy hi).1 haccepted⟩
  · rintro hmisleads c' ⟨j', hnoted, hrejected, i', hhas, haccepted⟩
    have hnotedHas := hreg.hasCondition_of_noted hnoted
    by_cases hi' : s₀.ctx.Has i'
    · -- A condition of a group join from before is noted for the same group join as before.
      have hhas₀ := (h.hasCondition_of_has hi' c').1 hhas
      rw [h.joins c' (hbelow i' c' hhas₀)] at hnoted
      have hj' := (hreg₀.hasCondition_of_noted hnoted).has
      exact hold c' ⟨j', hnoted, fun hj => hrejected ((h.accepted_of_has hj').2 hj), i', hhas₀,
        (h.accepted_of_has hi').1 haccepted⟩
    · obtain ⟨i, hi⟩ := h.exists_copies haccepted.has hi'
      obtain ⟨c, hc⟩ := h.exists_copiesCondition hi hhas
      have hj' : ¬s₀.ctx.Has j' := by
        intro hj'
        have hlt := hbelow j' c' ((h.hasCondition_of_has hj' c').1 hnotedHas)
        exact absurd (h.numbered.condition_drawn hc).1 (Int.not_le.2 hlt)
      obtain ⟨j, hj⟩ := h.exists_copies hnotedHas.has hj'
      exact hmisleads ⟨c, c', j, j', hc, hj, hnoted, fun hj₀ => hrejected ((h.accepted_copy hj).1 hj₀), i, i', hi,
        (h.hasCondition_copy hi hc).2 hhas, (h.accepted_copy hi).2 haccepted⟩

end Duplication

open Duplication

namespace Operation

/-- An operation that leaves a condition of an accepted group join with a rejected one noted last. -/
def Misleads (st : Context × Supply) : Operation → Prop
  | rejectGroupJoin id =>
    ∃ c, st.1.joinOfCondition? c = some id ∧ ∃ j, j ≠ id ∧ st.1.HasCondition j c ∧ st.1.Accepted j
  | duplicate calls => (calls.foldl Call.apply { ctx := st.1, supply := st.2 }).Misleads
  | _ => False

/-- Where the context is misled about no condition, it stays so under an operation exactly if this does not mislead it. -/
theorem not_misled_apply_iff {st : Context × Supply} {op : Operation} (h : Reached st.1 st.2) (hv : op.Valid st)
    (hbelow : st.1.ConditionsBelow st.2.next) (hold : ∀ c, ¬st.1.Misled c) :
    (∀ c, ¬(apply st op).1.Misled c) ↔ ¬op.Misleads st := by
  have hkept : ∀ {op : Operation}, st.1.SameTags (apply st op).1 → ¬op.Misleads st →
      ((∀ c, ¬(apply st op).1.Misled c) ↔ ¬op.Misleads st) :=
    fun hs hn => ⟨fun _ => hn, fun _ c hc => hold c ((hs.misled_iff c).1 hc)⟩
  have hnext : Reached (apply st op).1 (apply st op).2 := h.apply hv
  cases op with
  | nodeFor tree table => exact hkept (Context.sameTags_nodeFor tree table) id
  | addGroupJoin group parent child conditions join =>
    rcases addGroupJoin_cases st group parent child conditions join with ⟨r, hok, heq⟩ | ⟨-, heq⟩
    · rw [heq]
      exact ⟨fun _ => id, fun _ c => Context.not_misled_addGroupJoin hok (hold c)⟩
    · rw [heq]
      exact ⟨fun _ => id, fun _ => hold⟩
  | rejectGroupJoin id =>
    have hiff : ∀ c, (apply st (.rejectGroupJoin id)).1.Misled c ↔ _ := fun c => Context.misled_rejectGroupJoin_iff hv (hold c)
    simp only [hiff, Misleads, not_exists]
  | mergeGroups into other => exact hkept (Context.sameTags_mergeGroups hv.2) id
  | duplicate calls =>
    have hs := (session_of_along hv).inSession h.wellFormed
    exact hs.not_misled_iff h.registered hnext.registered hbelow hold
  | _ => exact hkept (Context.sameTags_of_arena rfl rfl) id

end Operation

namespace OrdersOfCustomers

/-- Two group joins get the same condition. -/
def sharedCondition : List Operation := acceptedJoin ++ [.addGroupJoin ⟨0⟩ ⟨0⟩ ⟨1⟩ [⟨1⟩] link]

end OrdersOfCustomers

open OrdersOfCustomers in
/-- A comparison need not be tagged with the group join that has its condition: when the second of two is rejected, the first is
still accepted, and the comparison counts as carried out by neither. -/
theorem not_tagFollows_of_shared_condition : ¬∀ (config : Config) (ops : List Operation),
    Along Operation.apply (fun st op => op.Valid st ∧ op.Drawn st) (Context.withConfig config, {}) ops →
      ∀ c, (ops.foldl Operation.apply (Context.withConfig config, {})).1.TagFollows c := by
  intro h
  have hfollows := h {} (sharedCondition ++ [.rejectGroupJoin ⟨1⟩]) (by decide +kernel) equality
  have htag := hfollows.accepted ⟨⟨0⟩, ⟨_, rfl, List.mem_singleton_self _⟩, ⟨_, rfl, rfl⟩⟩
  exact absurd htag (by decide +kernel)

/-- All tags follow their joins exactly if no condition misleads. -/
theorem Context.forall_tagFollows_iff {ctx : Context} (hreg : ctx.Registered []) :
    (∀ c, ctx.TagFollows c) ↔ ∀ c, ¬ctx.Misled c :=
  ⟨fun h c => (Context.tagFollows_iff hreg ⟨c, .eq, .normal⟩).1 (h _), fun h c => (Context.tagFollows_iff hreg c).2 (h c.id)⟩

/-- In all states of a run the context is right about each comparison that it is not misled about, and it is right about all
comparisons in all states exactly if no operation misleads it. -/
theorem tagFollows_iff_of_run (config : Config) (ops : List Operation)
    (hv : Along Operation.apply (fun st op => op.Valid st ∧ op.Drawn st) (Context.withConfig config, {}) ops) :
    Throughout Operation.apply (fun st => ∀ c, st.1.TagFollows c ↔ ¬st.1.Misled c.id) (Context.withConfig config, {}) ops ∧
      (Throughout Operation.apply (fun st => ∀ c, st.1.TagFollows c) (Context.withConfig config, {}) ops ↔
        Along Operation.apply (fun st op => ¬op.Misleads st) (Context.withConfig config, {}) ops) := by
  have hstart : Reached (Context.withConfig config) {} ∧ (Context.withConfig config).ConditionsBelow 1 := by
    refine ⟨.start config, ?_⟩
    rintro j c ⟨x, hx, -⟩
    cases hx
  have hstep : ∀ (st : Context × Supply) (op : Operation),
      Reached st.1 st.2 ∧ st.1.ConditionsBelow st.2.next → op.Valid st ∧ op.Drawn st →
        Reached (op.apply st).1 (op.apply st).2 ∧ (op.apply st).1.ConditionsBelow (op.apply st).2.next :=
    fun st op h hop => ⟨h.1.apply hop.1, Operation.conditionsBelow_apply h.1 hop.1 hop.2 h.2⟩
  constructor
  · exact (hv.throughout hstep hstart).mono fun st h c => Context.tagFollows_iff h.1.registered c
  · refine throughout_iff_along hstep ?_ hv hstart ?_
    · intro st op h hop hfollows
      rw [Context.forall_tagFollows_iff (hstep st op h hop).1.registered]
      exact Operation.not_misled_apply_iff h.1 hop.1 h.2 ((Context.forall_tagFollows_iff h.1.registered).1 hfollows)
    · rw [Context.forall_tagFollows_iff hstart.1.registered]
      rintro c ⟨j, -, -, j', ⟨x, hx, -⟩, -⟩
      cases hx

namespace OrdersOfCustomers

/-- The older one of the two group joins is rejected. -/
def rejectedOlder : List Operation := sharedCondition ++ [.rejectGroupJoin ⟨0⟩]

/-- The group is copied after that. -/
def copiedYounger : Duplication := Call.apply { ctx := (after rejectedOlder).1, supply := (after rejectedOlder).2 }
  (.entity ⟨.group, ⟨0⟩⟩)

/-- The group join that is copied is the accepted one. -/
theorem not_misleads_copiedYounger : ¬copiedYounger.Misleads := by
  rintro ⟨c, c', j, j', -, hj, -, hrejected, -⟩
  have hlist : copiedYounger.entries .groupJoin = [(⟨1⟩, ⟨2⟩)] := by decide +kernel
  rw [Copies, hlist] at hj
  obtain ⟨rfl, rfl⟩ : j = ⟨1⟩ ∧ j' = ⟨2⟩ := by simpa using hj
  exact hrejected (by decide +kernel)

end OrdersOfCustomers

open OrdersOfCustomers in
/-- Rejecting the older one of two group joins with one condition leaves the younger one noted, and copying the group then
keeps it so. -/
theorem tagFollows_of_rejected_older :
    Along Operation.apply (fun st op => op.Valid st ∧ op.Drawn st) (Context.withConfig {}, {})
        (rejectedOlder ++ [.duplicate [.entity ⟨.group, ⟨0⟩⟩]]) ∧
      Throughout Operation.apply (fun st => ∀ c, st.1.TagFollows c) (Context.withConfig {}, {})
        (rejectedOlder ++ [.duplicate [.entity ⟨.group, ⟨0⟩⟩]]) := by
  have hv : Along Operation.apply (fun st op => op.Valid st ∧ op.Drawn st) (Context.withConfig {}, {})
      (rejectedOlder ++ [.duplicate [.entity ⟨.group, ⟨0⟩⟩]]) := by
    decide +kernel
  refine ⟨hv, (tagFollows_iff_of_run {} _ hv).2.2 ⟨id, id, id, id, id, id, id, id, id, id, id, ?_, ?_, trivial⟩⟩
  · rintro ⟨c, hnoted, -⟩
    have hlist : (after sharedCondition).1.conditionJoins = [(⟨1⟩, ⟨1⟩), (⟨1⟩, ⟨0⟩)] := by decide +kernel
    change List.lookup c (after sharedCondition).1.conditionJoins = some ⟨0⟩ at hnoted
    have hmem := mem_of_lookup hnoted
    rw [hlist] at hnoted hmem
    obtain rfl : c = ⟨1⟩ := by simpa using hmem
    exact absurd hnoted (by decide)
  · exact not_misleads_copiedYounger

end ClusterPlan
