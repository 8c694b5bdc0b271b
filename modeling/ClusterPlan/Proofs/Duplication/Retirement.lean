import ClusterPlan.Proofs.Context.Retirement
import ClusterPlan.Proofs.Duplication.GroupCopies
import ClusterPlan.Proofs.Duplication.Runs

/-!
# Merged groups along runs

A group that was merged into another one can be used again (`not_retires_of_merged_back`). Merged groups are empty, and the
ways from them end at groups that were not merged, in all states of a run exactly if no operation of the run revives one: adds
a join to it, or merges a group into it such that it gets sources or the way from it comes back (`retires_iff_of_run`).
-/

namespace ClusterPlan

namespace Duplication

variable {s₀ s : Duplication} {input : Context} {g g' : GroupId} {path : List GroupId}

/-- Of two related options one is empty exactly if the other is. -/
theorem none_iff_of_optionRel {α β : Type} {R : α → β → Prop} {a : Option α} {b : Option β} (hab : Option.Rel R a b) :
    a = none ↔ b = none := by
  cases hab <;> simp

/-- What a copied group lists and what it was merged into are copies of what the original has. -/
theorem InSession.copies_group (h : InSession s₀ input [] s) (hc : s.Copies g g') :
    List.Forall₂ s.Copies (s.ctx.members g) (s.ctx.members g') ∧ List.Forall₂ s.Copies (s.ctx.joinsIn g) (s.ctx.joinsIn g') ∧
      Option.Rel s.Copies (s.ctx.mergedInto? g) (s.ctx.mergedInto? g') := by
  obtain ⟨y, y', hy, hy', hf⟩ := h.faithful g g' hc (by simp)
  rw [Context.members_of_record? hy, Context.members_of_record? hy', Context.joinsIn_of_record? hy,
    Context.joinsIn_of_record? hy', Context.mergedInto?_of_record? hy, Context.mergedInto?_of_record? hy']
  exact hf

/-- The way from a copied group goes over the copies of the groups on the way from the original. -/
theorem InSession.exists_forwards_copy (h : InSession s₀ input [] s) (hg : s.ctx.Forwards g path) (hc : s.Copies g g') :
    ∃ path', s.ctx.Forwards g' path' := by
  induction hg generalizing g' with
  | live hnone => exact ⟨_, .live ((none_iff_of_optionRel (h.copies_group hc).2.2).1 hnone)⟩
  | merged hsome _ ih =>
    have hmerged := (h.copies_group hc).2.2
    rw [hsome] at hmerged
    generalize hlink : s.ctx.mergedInto? g' = link at hmerged
    cases hmerged with
    | some hc' =>
      obtain ⟨path', hpath'⟩ := ih hc'
      exact ⟨_, .merged hlink hpath'⟩

/-- A session changes nothing about which group a group from before it was merged into. -/
theorem InSession.mergedInto?_of_has (h : InSession s₀ input [] s) (hg : s₀.ctx.Has g) :
    s.ctx.mergedInto? g = s₀.ctx.mergedInto? g := by
  rw [Context.mergedInto?_eq, h.frame g hg, ← Context.mergedInto?_eq]

/-- A session keeps merged groups retired. -/
theorem InSession.retires (h : InSession s₀ input [] s) (ho : s.Ordered) (hwf : s₀.ctx.WellFormed) (hr : s₀.ctx.Retires) :
    s.ctx.Retires := by
  refine Context.retires_iff.2 ⟨?_, ?_⟩
  · intro g hsome
    obtain ⟨y, hy⟩ := Context.exists_record? (Context.has_of_mergedInto? hsome)
    refine h.inductionOn ho (P := fun (g : GroupId) _ =>
      s.ctx.mergedInto? g ≠ none → s.ctx.members g = [] ∧ s.ctx.joinsIn g = []) ?_ ?_ g y hy hsome
    · intro g y hy hsome
      have hhas := Context.has_of_record? hy
      rw [h.mergedInto?_of_has hhas] at hsome
      rw [Context.members_eq, Context.joinsIn_eq, h.frame g hhas, ← Context.members_eq, ← Context.joinsIn_eq]
      exact hr.empty g hsome
    · intro g g' _ _ hc _ _ _ ih hsome'
      obtain ⟨htables, hjoins, hmerged⟩ := h.copies_group hc
      have hsome : s.ctx.mergedInto? g ≠ none := (not_congr (none_iff_of_optionRel hmerged)).2 hsome'
      rw [(ih hsome).1] at htables
      rw [(ih hsome).2] at hjoins
      exact ⟨List.forall₂_nil_left_iff.1 htables, List.forall₂_nil_left_iff.1 hjoins⟩
  · intro g
    by_cases hsome : s.ctx.mergedInto? g = none
    · exact ⟨_, .live hsome⟩
    · obtain ⟨y, hy⟩ := Context.exists_record? (Context.has_of_mergedInto? hsome)
      refine h.inductionOn ho (P := fun (g : GroupId) _ => ∃ path, s.ctx.Forwards g path) ?_ ?_ g y hy
      · intro g y hy
        obtain ⟨path, hpath, -⟩ := hr.ends g
        have hhas := hpath.has hwf (Context.has_of_record? hy)
        exact ⟨path, hpath.congr fun h' hh' => h.mergedInto?_of_has (hhas h' hh')⟩
      · intro g g' _ _ hc _ _ _ ih
        obtain ⟨path, hpath⟩ := ih
        exact h.exists_forwards_copy hpath hc

/-- The copies of groups have as many sources as the groups. -/
theorem InSession.peopled (h : InSession s₀ input [] s) (ho : s.Ordered) (hp : s₀.ctx.Peopled) : s.ctx.Peopled := by
  refine h.inductionOn ho hp ?_
  intro g g' y y' _ _ _ hf ih hnone
  obtain ⟨htables, -, hmerged⟩ := hf
  intro hnil
  rw [hnil] at htables
  exact ih ((none_iff_of_optionRel hmerged).2 hnone) (List.forall₂_nil_right_iff.1 htables)

end Duplication

open Duplication

/-- In every reachable context the groups that were not merged have sources. -/
theorem Reached.peopled {ctx : Context} {supply : Supply} (h : Reached ctx supply) : ctx.Peopled := by
  induction h using Reached.induct_links with
  | start config =>
    intro g y hy
    cases hy
  | same _ _ hs ih => exact ih.of_sameLinks hs
  | addGroup first _ _ ih => exact ih.addGroup first
  | addGroupJoin group parent child conditions join _ _ _ _ hok ih => exact ih.addGroupJoin hok
  | rejectGroupJoin id _ hid ih => exact ih.rejectGroupJoin hid
  | mergeGroups into other _ _ ho ih => exact ih.mergeGroups ho
  | session hctx hs ih => exact (hs.inSession hctx.wellFormed).peopled (hs.ordered hctx.wellFormed) ih

/-- Without groups there is nothing that could have been merged. -/
theorem Context.retires_withConfig (config : Config) : (Context.withConfig config).Retires := by
  refine Context.retires_iff.2 ⟨fun g hsome => absurd rfl hsome, fun g => ⟨_, .live rfl⟩⟩

namespace Operation

/-- An operation that uses a merged group again: it gets a join, takes over sources, or takes over a group on the way from
it. -/
def Revives (st : Context × Supply) : Operation → Prop
  | addGroupJoin group parent child _ join => st.1.joins join parent child = true ∧ st.1.mergedInto? group ≠ none
  | mergeGroups into other => st.1.Revives into other
  | _ => False

/-- Merged groups stay retired under an operation exactly if it revives none. -/
theorem retires_apply_iff {st : Context × Supply} {op : Operation} (h : Reached st.1 st.2) (hv : op.Valid st)
    (hr : st.1.Retires) : (apply st op).1.Retires ↔ ¬op.Revives st := by
  cases op with
  | draw => exact iff_of_true hr id
  | setProperty name value => exact iff_of_true (hr.of_sameLinks (Context.sameLinks_of_arenas rfl rfl rfl)) id
  | addTree group => exact iff_of_true (hr.of_sameLinks (Context.sameLinks_of_arenas rfl rfl rfl)) id
  | nodeFor tree table => exact iff_of_true (hr.of_sameLinks (Context.sameLinks_nodeFor tree table)) id
  | addSource node name required => exact iff_of_true (hr.of_sameLinks (Context.sameLinks_addSource node name required)) id
  | setRequired source required => exact iff_of_true (hr.of_sameLinks (Context.sameLinks_setRequired source required)) id
  | addGroup first => exact iff_of_true (hr.addGroup first) id
  | addGroupJoin group parent child conditions join =>
    rcases addGroupJoin_cases st group parent child conditions join with ⟨r, hok, heq⟩ | ⟨hrefused, heq⟩
    · rw [heq, hr.addGroupJoin_iff hv.1 hok]
      simp only [Revives, (Context.addGroupJoin_ok hok).1, true_and, ne_eq, not_not]
    · rw [heq]
      exact iff_of_true hr fun hrevives => absurd hrevives.1 (Bool.eq_false_iff.1 hrefused)
  | rejectGroupJoin join => exact iff_of_true (hr.rejectGroupJoin hv) id
  | mergeGroups into other => exact hr.mergeGroups_iff h.peopled hv.1 hv.2
  | addKeyJoin parent child conditions foreignKey => exact iff_of_true (hr.of_sameLinks (Context.sameLinks_of_arenas rfl rfl rfl)) id
  | addHashTable t => exact iff_of_true (hr.of_sameLinks (Context.sameLinks_of_arenas rfl rfl rfl)) id
  | addBloomFilter f => exact iff_of_true (hr.of_sameLinks (Context.sameLinks_of_arenas rfl rfl rfl)) id
  | duplicate calls =>
    have hs := session_of_along hv
    exact iff_of_true ((hs.inSession h.wellFormed).retires (hs.ordered h.wellFormed) h.wellFormed hr) id

end Operation

namespace MergedBack

/-- Two sources with a group each; the second group is merged into the first, and then the first into the second. -/
def operations : List Operation :=
  [.addTree none, .nodeFor ⟨0⟩ default, .addSource ⟨0⟩ "s" true, .addSource ⟨0⟩ "t" true, .addGroup ⟨0⟩, .addGroup ⟨1⟩,
    .mergeGroups ⟨0⟩ ⟨1⟩, .mergeGroups ⟨1⟩ ⟨0⟩]

end MergedBack

open MergedBack in
/-- A merged group need not stay retired: the second group points at the first and holds both sources. -/
theorem not_retires_of_merged_back : ¬∀ (config : Config) (ops : List Operation),
    Along Operation.apply (fun st op => op.Valid st) (Context.withConfig config, {}) ops →
      (ops.foldl Operation.apply (Context.withConfig config, {})).1.Retires := by
  intro h
  have hretires := h {} operations (by decide)
  have hempty := (hretires.empty ⟨1⟩ (by decide)).1
  exact absurd hempty (by decide)

/-- Merged groups are empty and lead to groups that were not merged, in all states of a run, exactly if no operation revives a
merged group. -/
theorem retires_iff_of_run (config : Config) (ops : List Operation)
    (hv : Along Operation.apply (fun st op => op.Valid st) (Context.withConfig config, {}) ops) :
    Throughout Operation.apply (fun st => st.1.Retires) (Context.withConfig config, {}) ops ↔
      Along Operation.apply (fun st op => ¬op.Revives st) (Context.withConfig config, {}) ops := by
  refine throughout_iff_along (I := fun st => Reached st.1 st.2) (fun _ _ h hop => h.apply hop) ?_ hv (.start config)
    (Context.retires_withConfig config)
  intro st op h hop hr
  exact Operation.retires_apply_iff h hop hr

namespace MergedInTurn

/-- Three groups, merged one into the next from the end on; the last merge is repeated, and all is copied. -/
def operations : List Operation :=
  [.addTree none, .nodeFor ⟨0⟩ default, .addSource ⟨0⟩ "s" true, .addSource ⟨0⟩ "t" true, .addSource ⟨0⟩ "u" true,
    .addGroup ⟨0⟩, .addGroup ⟨1⟩, .addGroup ⟨2⟩, .mergeGroups ⟨1⟩ ⟨2⟩, .mergeGroups ⟨0⟩ ⟨1⟩, .mergeGroups ⟨1⟩ ⟨2⟩,
    .duplicate [.entity ⟨.group, ⟨2⟩⟩]]

end MergedInTurn

open MergedInTurn in
/-- Merging a merged group once more into the same one, itself merged since, revives neither. -/
theorem retires_of_merged_in_turn :
    Along Operation.apply (fun st op => op.Valid st) (Context.withConfig {}, {}) operations ∧
      Throughout Operation.apply (fun st => st.1.Retires) (Context.withConfig {}, {}) operations := by
  have hv : Along Operation.apply (fun st op => op.Valid st) (Context.withConfig {}, {}) operations := by decide +kernel
  refine ⟨hv, (retires_iff_of_run {} operations hv).2 ⟨id, id, id, id, id, id, id, id, ?_, ?_, ?_, id, trivial⟩⟩
  · exact fun h => h.2.1 (by decide +kernel)
  · exact fun h => h.2.1 (by decide +kernel)
  · rintro ⟨-, -, hnone | hcircles⟩
    · exact absurd hnone (by decide +kernel)
    · -- The way from the second group leads to the first, and there it ends.
      rw [Context.circles_iff (.merged (h := ⟨0⟩) (by decide +kernel) (.live (by decide +kernel)))] at hcircles
      exact absurd hcircles (by decide)

end ClusterPlan
