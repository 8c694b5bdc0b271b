import ClusterPlan.Proofs.Context.Membership
import ClusterPlan.Proofs.Duplication.GroupCopies
import ClusterPlan.Proofs.Duplication.Runs

/-!
# Membership along runs

A group and a source need not agree on whether the source is in the group: the tables of a group keep a source that gets into
another one (`not_agrees_of_regrouped`). What is recorded on a source is right in every state, and the tables are right in all
states of a run exactly if no operation of the run takes a source from one group into another one by other means than merging
the groups (`agrees_iff_of_run`).
-/

namespace ClusterPlan

open Duplication

/-- Groups and sources agree on which source is in which group. -/
def Context.Agrees (ctx : Context) : Prop :=
  ∀ (g : GroupId) (s : SourceId), s ∈ ctx.members g ↔ ctx.groupOf? s = some g

namespace Duplication

variable {s₀ s : Duplication} {input : Context}

/-- A session keeps recorded groups listing their sources, copies included. -/
theorem InSession.recorded (h : InSession s₀ input [] s) (ho : s.Ordered) (hwf : s₀.ctx.WellFormed)
    (hr : s₀.ctx.Recorded) : s.ctx.Recorded := by
  intro g t hgroup
  obtain ⟨x, hx, hg⟩ := Context.groupOf?_eq_some_iff.1 hgroup
  refine h.inductionOn ho (P := fun (t : SourceId) (x : TableSource) => ∀ g, x.group = some g → t ∈ s.ctx.members g)
    ?_ ?_ t x hx g hg
  · intro t x hx g hg
    have hhas : s₀.ctx.Has g := hwf.closed t x (Context.has_of_record? hx) hx ⟨.group, g⟩ (by simp [EntityKind.references, hg])
    have hmem := hr ((Context.groupOf?_of_record? hx).trans hg)
    rwa [Context.members_eq, h.frame g hhas, ← Context.members_eq]
  · intro t t' x x' hc _ _ hf ih g' hg'
    obtain ⟨-, -, -, hgroup, -⟩ := hf
    obtain ⟨g, hcg⟩ := exists_of_optionRel hgroup (Option.mem_toList.2 hg')
    have hmem := ih g ((eq_some_iff_of_optionRel h.biUnique hgroup hcg).2 hg')
    obtain ⟨y, y', hy, hy', htables, -⟩ := h.faithful g g' hcg (by simp)
    rw [Context.members_of_record? hy] at hmem
    rw [Context.members_of_record? hy']
    exact (mem_iff_of_forall₂ h.biUnique htables hc).1 hmem

/-- A session keeps listed sources in their groups, copies included. -/
theorem InSession.listed (h : InSession s₀ input [] s) (ho : s.Ordered) (hwf : s₀.ctx.WellFormed)
    (hl : s₀.ctx.Listed) : s.ctx.Listed := by
  intro g t hmem
  obtain ⟨y, hy, ht⟩ := Context.mem_members_iff.1 hmem
  refine h.inductionOn ho (P := fun (g : GroupId) (y : TableGroup) => ∀ t ∈ y.tables, s.ctx.groupOf? t = some g)
    ?_ ?_ g y hy t ht
  · intro g y hy t ht
    have hgroup := hl (Context.mem_members_iff.2 ⟨y, hy, ht⟩)
    rwa [Context.groupOf?_eq, h.frame t (hwf.has_table hy ht), ← Context.groupOf?_eq]
  · intro g g' y y' hc _ _ hf ih t' ht'
    obtain ⟨t, hct⟩ := exists_of_forall₂ hf.1 ht'
    have hgroup := ih t ((mem_iff_of_forall₂ h.biUnique hf.1 hct).2 ht')
    obtain ⟨x, x', hx, hx', -, -, -, hgroup', -⟩ := h.faithful t t' hct (by simp)
    rw [Context.groupOf?_of_record? hx] at hgroup
    rw [Context.groupOf?_of_record? hx']
    exact (eq_some_iff_of_optionRel h.biUnique hgroup' hc).1 hgroup

end Duplication

/-! ## What is recorded on sources -/

/-- In every reachable context a source is in the tables of the group that is recorded on it. -/
theorem Reached.recorded {ctx : Context} {supply : Supply} (h : Reached ctx supply) : ctx.Recorded := by
  induction h using Reached.induct_links with
  | start config =>
    intro g s hgroup
    obtain ⟨x, hx, -⟩ := Context.groupOf?_eq_some_iff.1 hgroup
    cases hx
  | same _ _ hs ih => exact ih.of_sameLinks hs
  | addGroup first _ hf ih => exact ih.addGroup hf
  | addGroupJoin group parent child conditions join _ hg hp hc hok ih => exact ih.addGroupJoin hg hp hc hok
  | rejectGroupJoin id _ hid ih => exact ih.rejectGroupJoin hid
  | mergeGroups into other hctx hi ho ih => exact ih.mergeGroups hctx.wellFormed hi ho
  | session hctx hs ih => exact (hs.inSession hctx.wellFormed).recorded (hs.ordered hctx.wellFormed) hctx.wellFormed ih

/-! ## What is in the tables of groups -/

namespace Operation

/-- An operation that takes a source from one group into another one without merging the groups. -/
def Regroups (st : Context × Supply) : Operation → Prop
  | addGroup first => st.1.groupOf? first ≠ none
  | addGroupJoin group parent child _ join =>
    st.1.joins join parent child = true ∧ ∃ s ∈ [parent, child], st.1.groupOf? s ∉ [none, some group]
  | _ => False

instance (st : Context × Supply) : (op : Operation) → Decidable (op.Regroups st)
  | addGroup first => inferInstanceAs (Decidable (st.1.groupOf? first ≠ none))
  | addGroupJoin group parent child _ join =>
    inferInstanceAs (Decidable (st.1.joins join parent child = true ∧
      ∃ s ∈ [parent, child], st.1.groupOf? s ∉ [none, some group]))
  | draw | setProperty _ _ | addTree _ | nodeFor _ _ | addSource _ _ _ | setRequired _ _ | rejectGroupJoin _ | mergeGroups _ _
  | addKeyJoin _ _ _ _ | addHashTable _ | addBloomFilter _ | duplicate _ => inferInstanceAs (Decidable False)

/-- Right tables stay right under an operation exactly if it does not regroup a source. -/
theorem listed_apply_iff {st : Context × Supply} {op : Operation} (h : Reached st.1 st.2) (hv : op.Valid st) (hl : st.1.Listed) :
    (apply st op).1.Listed ↔ ¬op.Regroups st := by
  have hnext : (apply st op).1.WellFormed := (h.apply hv).wellFormed
  cases op with
  | draw => exact iff_of_true hl id
  | setProperty name value => exact iff_of_true (hl.of_sameLinks hnext (Context.sameLinks_of_arenas rfl rfl rfl)) id
  | addTree group => exact iff_of_true (hl.of_sameLinks hnext (Context.sameLinks_of_arenas rfl rfl rfl)) id
  | nodeFor tree table => exact iff_of_true (hl.of_sameLinks hnext (Context.sameLinks_nodeFor tree table)) id
  | addSource node name required => exact iff_of_true (hl.of_sameLinks hnext (Context.sameLinks_addSource node name required)) id
  | setRequired source required => exact iff_of_true (hl.of_sameLinks hnext (Context.sameLinks_setRequired source required)) id
  | addGroup first =>
    simp only [Regroups, ne_eq, not_not]
    exact hl.addGroup_iff h.recorded hv
  | addGroupJoin group parent child conditions join =>
    rcases addGroupJoin_cases st group parent child conditions join with ⟨r, hok, heq⟩ | ⟨hrefused, heq⟩
    · rw [heq, hl.addGroupJoin_iff h.recorded hv.1 hv.2.1 hv.2.2 hok]
      simp only [Regroups, (Context.addGroupJoin_ok hok).1, true_and, not_exists, not_and, not_not]
      refine forall₂_congr fun s _ => ?_
      cases st.1.groupOf? s <;> simp
    · rw [heq]
      exact iff_of_true hl fun hr => absurd hr.1 (Bool.eq_false_iff.1 hrefused)
  | rejectGroupJoin join => exact iff_of_true (hl.rejectGroupJoin hv) id
  | mergeGroups into other => exact iff_of_true (hl.mergeGroups h.wellFormed hv.1 hv.2) id
  | addKeyJoin parent child conditions foreignKey =>
    exact iff_of_true (hl.of_sameLinks hnext (Context.sameLinks_of_arenas rfl rfl rfl)) id
  | addHashTable t => exact iff_of_true (hl.of_sameLinks hnext (Context.sameLinks_of_arenas rfl rfl rfl)) id
  | addBloomFilter f => exact iff_of_true (hl.of_sameLinks hnext (Context.sameLinks_of_arenas rfl rfl rfl)) id
  | duplicate calls =>
    have hs := session_of_along hv
    exact iff_of_true ((hs.inSession h.wellFormed).listed (hs.ordered h.wellFormed) h.wellFormed hl) id

end Operation

/-- Where recorded groups list their sources, both directions agree exactly if listed sources record their groups. -/
theorem Context.agrees_iff {ctx : Context} (hr : ctx.Recorded) : ctx.Agrees ↔ ctx.Listed :=
  ⟨fun h g s => (h g s).1, fun h g s => ⟨@h g s, @hr g s⟩⟩

/-- Without groups nothing is listed. -/
theorem Context.listed_withConfig (config : Config) : (Context.withConfig config).Listed := by
  intro g s hmem
  cases hmem

namespace RegroupedSource

/-- One source, which is put into a new group twice. -/
def operations : List Operation :=
  [.addTree none, .nodeFor ⟨0⟩ default, .addSource ⟨0⟩ "t" true, .addGroup ⟨0⟩, .addGroup ⟨0⟩]

end RegroupedSource

open RegroupedSource in
/-- Groups and sources need not agree: the first group still lists the source, on which the second group is recorded. -/
theorem not_agrees_of_regrouped : ¬∀ (config : Config) (ops : List Operation),
    Along Operation.apply (fun st op => op.Valid st) (Context.withConfig config, {}) ops →
      (ops.foldl Operation.apply (Context.withConfig config, {})).1.Agrees := by
  intro h
  have hagrees := h {} operations (by decide)
  have hgroup := (hagrees ⟨0⟩ ⟨0⟩).1 (by decide)
  exact absurd hgroup (by decide)

/-- What is recorded on the sources is right in all states of a run, and groups and sources agree in all states exactly if no
operation regroups a source. -/
theorem agrees_iff_of_run (config : Config) (ops : List Operation)
    (hv : Along Operation.apply (fun st op => op.Valid st) (Context.withConfig config, {}) ops) :
    Throughout Operation.apply (fun st => st.1.Recorded) (Context.withConfig config, {}) ops ∧
      (Throughout Operation.apply (fun st => st.1.Agrees) (Context.withConfig config, {}) ops ↔
        Along Operation.apply (fun st op => ¬op.Regroups st) (Context.withConfig config, {}) ops) := by
  have hreached := hv.throughout (I := fun st => Reached st.1 st.2) (fun _ _ h hop => h.apply hop) (.start config)
  constructor
  · exact hreached.mono fun _ h => h.recorded
  · refine throughout_iff_along (I := fun st => Reached st.1 st.2) (fun _ _ h hop => h.apply hop) ?_ hv (.start config) ?_
    · intro st op h hop hagrees
      rw [Context.agrees_iff (h.apply hop).recorded]
      exact Operation.listed_apply_iff h hop ((Context.agrees_iff h.recorded).1 hagrees)
    · exact (Context.agrees_iff (Reached.start config).recorded).2 (Context.listed_withConfig config)

namespace OrdersOfCustomers

/-- Orders are joined into the group of the customers, a group of other orders is merged into it, and the group is copied. -/
def operations : List Operation :=
  [.addTree none, .nodeFor ⟨0⟩ orders, .addSource ⟨0⟩ "c" true, .addSource ⟨1⟩ "o" true, .addSource ⟨1⟩ "p" true,
    .addGroup ⟨0⟩, .addGroupJoin ⟨0⟩ ⟨0⟩ ⟨1⟩ [] link, .addGroup ⟨2⟩, .mergeGroups ⟨0⟩ ⟨1⟩, .duplicate [.entity ⟨.group, ⟨0⟩⟩]]

end OrdersOfCustomers

open OrdersOfCustomers in
/-- Joining, merging and copying keep groups and sources in agreement. -/
theorem agrees_of_orders_of_customers :
    Along Operation.apply (fun st op => op.Valid st) (Context.withConfig {}, {}) operations ∧
      Throughout Operation.apply (fun st => st.1.Agrees) (Context.withConfig {}, {}) operations :=
  ⟨by decide +kernel, (agrees_iff_of_run {} operations (by decide +kernel)).2.2 (by decide +kernel)⟩

end ClusterPlan
