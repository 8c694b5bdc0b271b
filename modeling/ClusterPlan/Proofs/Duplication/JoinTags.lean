import ClusterPlan.Proofs.Duplication.Confined
import ClusterPlan.Proofs.Duplication.GroupCopies
import ClusterPlan.Proofs.Duplication.Runs
import ClusterPlan.Proofs.Duplication.Visits
import Mathlib.Logic.Relation

/-!
# How copied comparisons are carried out

Whether a comparison is carried out by a group join is not said by the comparison but by the context, and a session fills in
what it says of copied conditions only for the group joins that it copies. These are the group joins that the plan reaches. So
the copy of a comparison has the tag of a reached group join that has its condition, and its own tag if there is none
(`Plan.copiesTag`). Rejecting a group join cuts it off from its group and its child: the comparison is still tagged in the
context, and its copy is not (`not_tag_of_rejected_join`).
-/

namespace ClusterPlan

/-! ## What a plan reaches -/

/-- An entity is reached from one that the plan mentions. -/
def Plan.Reaches (p : Plan) (ctx : Context) (b : AnyRef) : Prop :=
  ∃ a, .entity a ∈ p.mentions ∧ Relation.ReflTransGen ctx.Refers a b

/-! ## The tags of a comparison -/

/-- The tag that a group join gives to the comparisons with its conditions. -/
def Context.tagOf (ctx : Context) (j : GroupJoinId) : Implementation :=
  if (ctx.groupJoins.get j).rejected then .potentialGroupJoin else .groupJoin

/-- A comparison is carried out as the join noted for its condition says, else as it says itself. -/
theorem Context.implementationOf_eq (ctx : Context) (c : ComparisonHead) :
    ctx.implementationOf c = ((ctx.joinOfCondition? c.id).map ctx.tagOf).getD c.implementation := by
  unfold implementationOf
  cases ctx.joinOfCondition? c.id <;> rfl

/-- The tag of a join is read from its record. -/
theorem Context.tagOf_of_record? {ctx : Context} {j : GroupJoinId} {x : GroupJoin} (hx : ctx.record? j = some x) :
    ctx.tagOf j = if x.rejected then .potentialGroupJoin else .groupJoin := by
  have hget : ctx.groupJoins.get j = x := Arena.get_of_get? _ hx
  rw [tagOf, hget]

/-- A tag that the copy of a comparison can have: that of a group join which the plan reaches and which has the condition, or
the one that the comparison itself has if there is no such group join. -/
def Plan.CopiedTag (p : Plan) (ctx : Context) (c : ComparisonHead) (tag : Implementation) : Prop :=
  (∃ j, p.Reaches ctx ⟨.groupJoin, j⟩ ∧ ctx.HasCondition j c.id ∧ tag = ctx.tagOf j) ∨
    (∀ j, p.Reaches ctx ⟨.groupJoin, j⟩ → ¬ctx.HasCondition j c.id) ∧ tag = c.implementation

/-- The copy of a comparison can only have the tag of the comparison. -/
def Plan.KeepsTag (p : Plan) (ctx : Context) (c : ComparisonHead) : Prop :=
  ∀ tag, p.CopiedTag ctx c tag → tag = ctx.implementationOf c

/-- All group joins that the plan reaches and that have the condition give the same tag. -/
def Plan.OneTag (p : Plan) (ctx : Context) (c : ComparisonHead) : Prop :=
  ∀ tag tag', p.CopiedTag ctx c tag → p.CopiedTag ctx c tag' → tag = tag'

/-- The copy of a comparison whose condition one group join has keeps the tag exactly if the plan reaches the group join, or if
the comparison itself has the tag as well. -/
theorem Plan.keepsTag_iff {p : Plan} {ctx : Context} {c : ComparisonHead} (hreg : ctx.Registered []) {j : GroupJoinId}
    (hj : ctx.HasCondition j c.id) (honly : ∀ j', ctx.HasCondition j' c.id → j' = j) :
    p.KeepsTag ctx c ↔ p.Reaches ctx ⟨.groupJoin, j⟩ ∨ c.implementation = ctx.tagOf j := by
  have htag : ctx.implementationOf c = ctx.tagOf j := by
    rw [Context.implementationOf_eq]
    cases hl : ctx.joinOfCondition? c.id with
    | none => exact absurd (List.mem_map_of_mem ((hreg c.id j).2 ⟨hj, List.not_mem_nil⟩)) (Duplication.not_mem_keys_of_lookup hl)
    | some j' =>
      rw [honly j' ((hreg c.id j').1 (Duplication.mem_of_lookup hl)).1]
      rfl
  rw [KeepsTag, htag]
  constructor
  · intro hkeeps
    by_cases hreached : p.Reaches ctx ⟨.groupJoin, j⟩
    · exact Or.inl hreached
    · refine Or.inr (hkeeps _ (Or.inr ⟨fun j' hj' hhas => hreached ?_, rfl⟩))
      rwa [← honly j' hhas]
  · rintro h tag (⟨j', -, hhas, rfl⟩ | ⟨hnone, rfl⟩)
    · rw [honly j' hhas]
    · exact h.resolve_left fun hreached => hnone j hreached hj

/-- What becomes of a comparison of a plan when the plan is copied in a fresh session. -/
structure Plan.CopiesTag (p : Plan) (ctx : Context) (supply : Supply) (s : Duplication) (c c' : ComparisonHead) : Prop where
  same : c' = { c with id := c'.id }
  /-- The original is carried out as before. -/
  original : c.id.value < supply.next → s.ctx.implementationOf c = ctx.implementationOf c
  copied : p.CopiedTag ctx c (s.ctx.implementationOf c')
  kept : p.KeepsTag ctx c → s.ctx.implementationOf c' = ctx.implementationOf c
  lost : p.OneTag ctx c → s.ctx.implementationOf c' = ctx.implementationOf c → p.KeepsTag ctx c

namespace Duplication

variable {kind : EntityKind} {ctx : Context} {supply : Supply} {s : Duplication} {p : Plan}

/-! ## The session of a plan -/

/-- Conditions and their copies are paired one to one. -/
theorem Additive.biUnique_conditions {s₀ : Duplication} {input : Context} (h : Additive s₀ input s) :
    Relator.BiUnique s.CopiesCondition := by
  constructor
  · intro c c' d hc hc'
    have hvalues := (List.nodup_append.1 h.numbered.distinct).2.1
    have heq := List.inj_on_of_nodup_map hvalues hc hc' rfl
    exact congrArg Prod.fst heq
  · intro c d d' hd hd'
    exact value_unique h.numbered.conditions hd hd'

/-- A copied group join has the copies of the conditions that the group join has. -/
theorem InSession.hasCondition_copy {s₀ : Duplication} {input : Context} (h : InSession s₀ input [] s) {j j' : GroupJoinId}
    {c c' : ConditionId} (hj : s.Copies j j') (hc : s.CopiesCondition c c') :
    s.ctx.HasCondition j c ↔ s.ctx.HasCondition j' c' := by
  obtain ⟨x, y, hx, hy, -, -, -, hconditions, -⟩ := h.faithful j j' hj (by simp)
  simp [Context.HasCondition, hx, hy, mem_iff_of_forall₂ h.biUnique_conditions hconditions hc]

/-- The conditions of a copied group join are copied ones. -/
theorem InSession.exists_copiesCondition {s₀ : Duplication} {input : Context} (h : InSession s₀ input [] s)
    {j j' : GroupJoinId} {c' : ConditionId} (hj : s.Copies j j') (hc : s.ctx.HasCondition j' c') :
    ∃ c, s.CopiesCondition c c' := by
  obtain ⟨y, hy, hmem⟩ := hc
  obtain ⟨x, -, -, -, -, hconditions, -⟩ := h.exists_original hj hy
  exact exists_of_forall₂ hconditions hmem

/-- The copy of a join gives the tag that the join gives. -/
theorem InSession.tagOf_copy {s₀ : Duplication} {input : Context} (h : InSession s₀ input [] s) {j j' : GroupJoinId}
    (hj : s.Copies j j') : s.ctx.tagOf j' = s.ctx.tagOf j := by
  obtain ⟨x, y, hx, hy, -, -, -, -, -, hrejected⟩ := h.faithful j j' hj (by simp)
  rw [Context.tagOf_of_record? hx, Context.tagOf_of_record? hy, hrejected]

section Frame

variable {s₀ : Duplication} {input : Context} (h : InSession s₀ input [] s) {j : GroupJoinId}
include h

/-- A session leaves the conditions of the joins from before it. -/
theorem InSession.hasCondition_of_has (hj : s₀.ctx.Has j) (c : ConditionId) :
    s.ctx.HasCondition j c ↔ s₀.ctx.HasCondition j c := by
  rw [Context.HasCondition, h.frame j hj, Context.HasCondition]

/-- A session leaves the tags of the joins from before it. -/
theorem InSession.tagOf_of_has (hj : s₀.ctx.Has j) : s.ctx.tagOf j = s₀.ctx.tagOf j := by
  obtain ⟨x, hx⟩ := Context.exists_record? hj
  rw [Context.tagOf_of_record? hx, Context.tagOf_of_record? ((h.frame j hj).trans hx)]

/-- Conditions from before the session are carried out as before. -/
theorem InSession.implementationOf_original (hreg : s₀.ctx.Registered []) {c : ComparisonHead}
    (hc : c.id.value < s₀.supply.next) : s.ctx.implementationOf c = s₀.ctx.implementationOf c := by
  rw [Context.implementationOf_eq, Context.implementationOf_eq, h.joins c.id hc]
  cases hj : s₀.ctx.joinOfCondition? c.id with
  | none => rfl
  | some j =>
    have hhas := ((hreg c.id j).1 (mem_of_lookup hj)).1.has
    rw [Option.map_some, Option.map_some, h.tagOf_of_has hhas]

end Frame

/-- A copy of a plan copies what the plan reaches and nothing else, and it copies the comparisons of the plan. -/
structure Copied (p : Plan) (ctx : Context) (supply : Supply) (copy : Plan) (s : Duplication) : Prop where
  session : InSession { ctx, supply } ctx [] s
  confined : Confined (p.Reaches ctx) [] s
  complete : ∀ ref, p.Reaches ctx ref → ∃ new, s.Copies ref.2 new
  comparisons : List.Forall₂ s.CopiesComparison p.comparisons copy.comparisons

/-- The calls for the mentions of a plan copy only what the plan reaches. -/
theorem keepsCall_confined (s₀ : Duplication) {input : Context} {P : AnyRef → Prop} (hin : input.Closed)
    (hP : input.ClosedBare P) {m : Mention} (hm : ∀ ref, m = .entity ref → P ref) :
    KeepsCall (fun s => InSession s₀ input [] s ∧ Confined P [] s) m := by
  cases m with
  | planNode id => exact Confines.of_confined (I := InSession s₀ input) (keeps_copyNumber id) fun _ _ hc => hc.copyNumber id
  | column id => exact Confines.of_confined (I := InSession s₀ input) (keeps_nodeNumber id) fun _ _ hc => hc.nodeNumber id
  | condition c =>
    intro s hs
    obtain ⟨h₁, hext, hcopy⟩ := keeps_condition c s hs.1
    exact ⟨⟨h₁, hs.2.condition c⟩, hext, hcopy⟩
  | entity ref => exact confines_entity hin hP (hm ref rfl)

/-- At the start of a session nothing is copied. -/
theorem confined_start (hreg : ctx.Registered []) (supply : Supply) (P : AnyRef → Prop) : Confined P [] { ctx, supply } := by
  refine ⟨fun kind old new hc => ?_, hreg⟩
  cases kind <;> cases hc

/-- The copy of a plan on a reached context is as it should be. -/
theorem copied_of_plan (hctx : Reached ctx supply) (hhas : ∀ ref, .entity ref ∈ p.mentions → ctx.Has ref.2) :
    Copied p ctx supply (p.copy { ctx, supply }).1 (p.copy { ctx, supply }).2 := by
  have hwf := hctx.wellFormed
  have hP : ctx.ClosedBare (p.Reaches ctx) := Context.closedBare_reached hwf.closed hhas
  obtain ⟨⟨h, hconfined⟩, -, hcomparisons⟩ := p.visits_copy _
    (fun m hm => keepsCall_confined { ctx, supply } hwf.closed hP fun ref href => ⟨ref, href ▸ hm, .refl⟩)
    { ctx, supply } ⟨inSession_start hwf supply, confined_start hctx.registered supply _⟩
  refine ⟨h, hconfined, ?_, hcomparisons⟩
  rintro ref ⟨m, hm, hmr⟩
  obtain ⟨entry, hentry, heq⟩ := List.mem_map.1 ((p.renames_copy hwf hhas { ctx, supply } .start).knows _ hm)
  exact h.copied_of_reached hmr ⟨entry.2, heq ▸ hentry⟩

namespace Copied

variable {copy : Plan} (h : Copied p ctx supply copy s) (hbelow : ctx.ConditionsBelow supply.next)
include h hbelow

/-- A condition that was copied is noted for the copies of the group joins that the plan reaches and that have it. -/
theorem mem_conditionJoins_iff {c c' : ConditionId} (hc : s.CopiesCondition c c')
    (j' : GroupJoinId) : (c', j') ∈ s.ctx.conditionJoins ↔
      ∃ j, s.Copies j j' ∧ p.Reaches ctx ⟨.groupJoin, j⟩ ∧ ctx.HasCondition j c := by
  rw [h.confined.registered c' j']
  constructor
  · rintro ⟨hhas, -⟩
    have hnew : ¬ctx.Has j' := fun hj' => by
      have hlt := hbelow j' c' ((h.session.hasCondition_of_has hj' c').1 hhas)
      exact Int.not_lt.2 (h.session.numbered.condition_drawn hc).1 hlt
    obtain ⟨j, hj⟩ := h.session.exists_copies hhas.has hnew
    refine ⟨j, hj, h.confined.originals j j' hj, ?_⟩
    rw [← h.session.hasCondition_of_has (h.session.input_has_original hj) c]
    exact (h.session.hasCondition_copy hj hc).2 hhas
  · rintro ⟨j, hj, -, hhas⟩
    refine ⟨(h.session.hasCondition_copy hj hc).1 ?_, List.not_mem_nil⟩
    exact (h.session.hasCondition_of_has (h.session.input_has_original hj) c).2 hhas

/-- The tag of a copied comparison. -/
theorem copiedTag {c c' : ComparisonHead} (hc : s.CopiesComparison c c') :
    p.CopiedTag ctx c (s.ctx.implementationOf c') := by
  have himplementation : c'.implementation = c.implementation := by rw [hc.2]
  rw [Context.implementationOf_eq]
  cases hl : s.ctx.joinOfCondition? c'.id with
  | some j' =>
    obtain ⟨j, hj, hreached, hhas⟩ := (h.mem_conditionJoins_iff hbelow hc.1 j').1 (mem_of_lookup hl)
    refine Or.inl ⟨j, hreached, hhas, ?_⟩
    rw [Option.map_some, Option.getD_some, h.session.tagOf_copy hj, h.session.tagOf_of_has (h.session.input_has_original hj)]
  | none =>
    refine Or.inr ⟨fun j hreached hhas => ?_, himplementation⟩
    obtain ⟨j', hj⟩ := h.complete ⟨.groupJoin, j⟩ hreached
    have hmem := (h.mem_conditionJoins_iff hbelow hc.1 j').2 ⟨j, hj, hreached, hhas⟩
    exact not_mem_keys_of_lookup hl (List.mem_map_of_mem hmem)

end Copied

end Duplication

open Duplication

/-- In a context whose conditions were drawn, the copy of each comparison of a plan has the tag of a group join that the plan
reaches and that has the condition, or its own. -/
theorem Plan.copiesTag {p : Plan} {ctx : Context} {supply : Supply} (hctx : Reached ctx supply)
    (hbelow : ctx.ConditionsBelow supply.next) (hhas : ∀ ref, .entity ref ∈ p.mentions → ctx.Has ref.2) :
    List.Forall₂ (p.CopiesTag ctx supply (p.copy { ctx, supply }).2) p.comparisons (p.copy { ctx, supply }).1.comparisons := by
  have h := copied_of_plan hctx hhas
  refine h.comparisons.imp fun c c' hc => ?_
  have htag := h.copiedTag hbelow hc
  refine ⟨hc.2, h.session.implementationOf_original hctx.registered, htag, fun hkeeps => hkeeps _ htag, ?_⟩
  intro hone heq tag htag'
  rw [← heq]
  exact hone _ _ htag' htag

/-! ## Runs -/

namespace Operation

/-- The conditions of a group join were drawn before. -/
def Drawn (st : Context × Supply) : Operation → Prop
  | addGroupJoin _ _ _ conditions _ => ∀ c ∈ conditions, c.value < st.2.next
  | _ => True

instance (st : Context × Supply) : (op : Operation) → Decidable (op.Drawn st)
  | addGroupJoin _ _ _ conditions _ => inferInstanceAs (Decidable (∀ c ∈ conditions, c.value < st.2.next))
  | draw | setProperty _ _ | addTree _ | nodeFor _ _ | addSource _ _ _ | setRequired _ _ | addGroup _ | rejectGroupJoin _
  | mergeGroups _ _ | addKeyJoin _ _ _ _ | addHashTable _ | addBloomFilter _ | duplicate _ => inferInstanceAs (Decidable True)

end Operation

/-- The conditions of copied group joins were drawn in the session. -/
theorem Duplication.InSession.conditionsBelow {s₀ s : Duplication} {input : Context} (h : InSession s₀ input [] s)
    (hbelow : s₀.ctx.ConditionsBelow s₀.supply.next) : s.ctx.ConditionsBelow s.supply.next := by
  intro j c hc
  by_cases hj : s₀.ctx.Has j
  · exact Int.lt_of_lt_of_le (hbelow j c ((h.hasCondition_of_has hj c).1 hc)) h.numbered.start_le
  · obtain ⟨old, hold⟩ := h.exists_copies hc.has hj
    obtain ⟨c₀, hc₀⟩ := h.exists_copiesCondition hold hc
    exact (h.numbered.condition_drawn hc₀).2

/-- With drawn numbers for its conditions an operation leaves all conditions below the next number. -/
theorem Operation.conditionsBelow_apply {st : Context × Supply} {op : Operation} (h : Reached st.1 st.2) (hv : op.Valid st)
    (hd : op.Drawn st) (hb : st.1.ConditionsBelow st.2.next) : (apply st op).1.ConditionsBelow (apply st op).2.next := by
  cases op with
  | draw => exact hb.mono (Int.le_of_lt (Int.lt_succ _))
  | addGroupJoin group parent child conditions join =>
    rcases addGroupJoin_cases st group parent child conditions join with ⟨r, hok, heq⟩ | ⟨-, heq⟩
    · rw [heq]
      exact hb.addGroupJoin hok hd
    · rwa [heq]
  | nodeFor tree table => exact hb.of_same (Context.sameConditions_nodeFor tree table)
  | rejectGroupJoin id => exact hb.of_same (Context.sameConditions_rejectGroupJoin hv)
  | mergeGroups into other => exact hb.of_same (Context.sameConditions_mergeGroups hv.2)
  | duplicate calls => exact ((session_of_along hv).inSession h.wellFormed).conditionsBelow hb
  | _ => exact hb.of_same (Context.sameConditions_of_arena rfl rfl)

namespace OrdersOfCustomers

/-- The orders are those of the customers. -/
def equality : ComparisonHead := ⟨⟨1⟩, .eq, .normal⟩

/-- Customers and orders joined by the equality. -/
def ordersJoin : Plan :=
  .binary 2 (.join { kind := .inner }) (.leaf 3 (.tableSource ⟨0⟩)) (.leaf 4 (.tableSource ⟨1⟩))
    [.comparison equality (.column ⟨.table ⟨0⟩, 0, "cid", none⟩) (.column ⟨.table ⟨1⟩, 0, "cid", none⟩)]

/-- The condition and the ids of the plan are drawn, and the equality becomes that of a group join. -/
def acceptedJoin : List Operation :=
  [.addTree none, .nodeFor ⟨0⟩ orders, .addSource ⟨0⟩ "c" true, .addSource ⟨1⟩ "o" true, .draw, .draw, .draw, .draw,
    .addGroup ⟨0⟩, .addGroupJoin ⟨0⟩ ⟨0⟩ ⟨1⟩ [⟨1⟩] link]

def rejectedJoin : List Operation := acceptedJoin ++ [.rejectGroupJoin ⟨0⟩]

/-- The state after a run from an empty context. -/
def after (ops : List Operation) : Context × Supply := ops.foldl Operation.apply (Context.withConfig {}, {})

/-- The join of customers and orders mentions two sources only. -/
theorem has_of_ordersJoin {ctx : Context} (h : ctx.Has (⟨0⟩ : SourceId) ∧ ctx.Has (⟨1⟩ : SourceId)) :
    ∀ ref, .entity ref ∈ ordersJoin.mentions → ctx.Has ref.2 := by
  intro ref href
  simp only [ordersJoin, Plan.mentions, Expr.mentionsAll, Expr.mentions, BinaryOp.sharedMentions, BinaryOp.joinMentions,
    LeafOp.mentions, ColumnSource.mentions, List.map_nil, List.append_nil, List.nil_append, List.cons_append,
    List.mem_cons, List.not_mem_nil, Mention.entity.injEq, reduceCtorEq, or_false, false_or, Option.toList_none] at href
  obtain rfl | rfl | rfl | rfl := href
  · exact h.1
  · exact h.2
  · exact h.1
  · exact h.2

/-- The join of customers and orders has one comparison. -/
theorem comparisons_ordersJoin : ordersJoin.comparisons = [equality] := by
  simp [ordersJoin, Plan.comparisons, Expr.comparisonsAll, Expr.comparisons]

/-- From the source of the customers to its group, and from there to the join. -/
theorem reaches_acceptedJoin : ordersJoin.Reaches (after acceptedJoin).1 ⟨.groupJoin, ⟨0⟩⟩ := by
  have hgroup : (after acceptedJoin).1.Refers ⟨.source, ⟨0⟩⟩ ⟨.group, ⟨0⟩⟩ :=
    ⟨_, rfl, List.mem_cons_of_mem _ List.mem_cons_self⟩
  have hjoin : (after acceptedJoin).1.Refers ⟨.group, ⟨0⟩⟩ ⟨.groupJoin, ⟨0⟩⟩ :=
    ⟨_, rfl, List.mem_cons_of_mem _ (List.mem_cons_of_mem _ List.mem_cons_self)⟩
  refine ⟨⟨.source, ⟨0⟩⟩, ?_, .tail (.single hgroup) hjoin⟩
  simp [ordersJoin, Plan.mentions, LeafOp.mentions, BinaryOp.sharedMentions]

/-- The plan is copied after the join was rejected. -/
def copiedRejected : Plan × Duplication := ordersJoin.copy { ctx := (after rejectedJoin).1, supply := (after rejectedJoin).2 }

/-- The equality is tagged in the context, and its copy is not. -/
theorem tags_copiedRejected :
    copiedRejected.2.conditions = [(⟨1⟩, ⟨8⟩)] ∧ copiedRejected.2.ctx.implementationOf equality = .potentialGroupJoin ∧
      copiedRejected.2.ctx.implementationOf ⟨⟨8⟩, .eq, .normal⟩ = .normal := by
  simp only [copiedRejected, ordersJoin, Plan.copy, Expr.copy, Expr.copyAll]
  decide +kernel

/-- What operations with drawn numbers lead to is reached. -/
theorem reached_after {ops : List Operation}
    (hv : Along Operation.apply (fun st op => op.Valid st ∧ op.Drawn st) (Context.withConfig {}, {}) ops) :
    Reached (after ops).1 (after ops).2 :=
  (hv.throughout (I := fun st => Reached st.1 st.2) (fun _ _ h hop => h.apply hop.1) (.start {})).last

end OrdersOfCustomers

open OrdersOfCustomers in
/-- The copy of a comparison need not have the tag of the comparison: that of a rejected join has lost it. -/
theorem not_tag_of_rejected_join : ¬∀ (config : Config) (ops : List Operation),
    Along Operation.apply (fun st op => op.Valid st ∧ op.Drawn st) (Context.withConfig config, {}) ops →
      let st := ops.foldl Operation.apply (Context.withConfig config, {})
      ∀ p : Plan, (∀ ref, .entity ref ∈ p.mentions → st.1.Has ref.2) →
        let copy := p.copy { ctx := st.1, supply := st.2 }
        List.Forall₂ (fun c c' => copy.2.ctx.implementationOf c' = copy.2.ctx.implementationOf c)
          p.comparisons copy.1.comparisons := by
  intro h
  have hv : Along Operation.apply (fun st op => op.Valid st ∧ op.Drawn st) (Context.withConfig {}, {}) rejectedJoin := by
    decide +kernel
  have hhas : ∀ ref, .entity ref ∈ ordersJoin.mentions → (after rejectedJoin).1.Has ref.2 :=
    has_of_ordersJoin (by decide +kernel)
  have htags : List.Forall₂
      (fun c c' => copiedRejected.2.ctx.implementationOf c' = copiedRejected.2.ctx.implementationOf c)
      ordersJoin.comparisons copiedRejected.1.comparisons := h {} rejectedJoin hv ordersJoin hhas
  have hcopies : List.Forall₂ copiedRejected.2.CopiesComparison ordersJoin.comparisons copiedRejected.1.comparisons :=
    (copied_of_plan (reached_after hv) hhas).comparisons
  obtain ⟨hconditions, horiginal, hcopy⟩ := tags_copiedRejected
  rw [comparisons_ordersJoin] at htags hcopies
  obtain ⟨c', cs, ⟨hc, heq⟩, -, hlist⟩ := List.forall₂_cons_left_iff.1 hcopies
  rw [hlist, List.forall₂_cons] at htags
  have hid : c'.id = ⟨8⟩ := by
    rw [CopiesCondition, hconditions] at hc
    simpa [equality] using hc
  rw [hid] at heq
  rw [heq, horiginal] at htags
  exact absurd (hcopy.symm.trans htags.1) (by decide)

/-- In every context that a run leads to, the copy of each comparison of a plan has the tag of a group join that the plan
reaches and that has the condition, or its own if there is none. -/
theorem copiesTag_of_run (config : Config) (ops : List Operation)
    (hv : Along Operation.apply (fun st op => op.Valid st ∧ op.Drawn st) (Context.withConfig config, {}) ops) :
    let st := ops.foldl Operation.apply (Context.withConfig config, {})
    ∀ p : Plan, (∀ ref, .entity ref ∈ p.mentions → st.1.Has ref.2) →
      let copy := p.copy { ctx := st.1, supply := st.2 }
      List.Forall₂ (p.CopiesTag st.1 st.2 copy.2) p.comparisons copy.1.comparisons := by
  intro st p hhas
  have hstates := hv.throughout (I := fun st => Reached st.1 st.2 ∧ st.1.ConditionsBelow st.2.next)
    (fun _ _ h hop => ⟨h.1.apply hop.1, Operation.conditionsBelow_apply h.1 hop.1 hop.2 h.2⟩)
    ⟨.start config, fun j c hc => by obtain ⟨x, hx, -⟩ := hc; cases hx⟩
  obtain ⟨hctx, hbelow⟩ := hstates.last
  exact p.copiesTag hctx hbelow hhas

open OrdersOfCustomers in
/-- The plan reaches the accepted join, so that the copied equality is carried out by the copied join. -/
theorem copiesTag_of_orders_join :
    Along Operation.apply (fun st op => op.Valid st ∧ op.Drawn st) (Context.withConfig {}, {}) acceptedJoin ∧
      (∀ ref, .entity ref ∈ ordersJoin.mentions → (after acceptedJoin).1.Has ref.2) ∧
      ordersJoin.KeepsTag (after acceptedJoin).1 equality ∧ (after acceptedJoin).1.implementationOf equality = .groupJoin ∧
      let copy := ordersJoin.copy { ctx := (after acceptedJoin).1, supply := (after acceptedJoin).2 }
      List.Forall₂ (ordersJoin.CopiesTag (after acceptedJoin).1 (after acceptedJoin).2 copy.2) ordersJoin.comparisons
        copy.1.comparisons := by
  have hv : Along Operation.apply (fun st op => op.Valid st ∧ op.Drawn st) (Context.withConfig {}, {}) acceptedJoin := by
    decide +kernel
  have hhas : ∀ ref, .entity ref ∈ ordersJoin.mentions → (after acceptedJoin).1.Has ref.2 :=
    has_of_ordersJoin (by decide +kernel)
  refine ⟨hv, hhas, ?_, by decide +kernel, copiesTag_of_run {} acceptedJoin hv ordersJoin hhas⟩
  have hreg : (after acceptedJoin).1.Registered [] := (reached_after hv).registered
  have hnoted : (after acceptedJoin).1.conditionJoins = [(⟨1⟩, ⟨0⟩)] := by decide +kernel
  refine (Plan.keepsTag_iff hreg (j := ⟨0⟩) ?_ ?_).2 (Or.inl reaches_acceptedJoin)
  · exact ((hreg ⟨1⟩ ⟨0⟩).1 (by simp [hnoted])).1
  · intro j hj
    have hmem := (hreg ⟨1⟩ j).2 ⟨hj, List.not_mem_nil⟩
    simpa [hnoted] using hmem

end ClusterPlan
