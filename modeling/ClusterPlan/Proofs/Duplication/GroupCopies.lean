import ClusterPlan.Proofs.Context.Grouped
import ClusterPlan.Proofs.Duplication.Ancestry

/-!
# Groups in every reachable context

Copying keeps groups and their joins fitting together: a copied group lists the copies of the joins that the original lists,
and these are the joins of the copy. Together with the operations this holds in every context that is ever reached.
-/

namespace ClusterPlan

namespace Duplication

variable {s₀ s : Duplication} {input : Context} {j j' : GroupJoinId} {g g' : GroupId}

/-- The joins of a group from before the session are from before the session, and the others are not. -/
theorem InSession.has_of_joinIn (h : InSession s₀ input [] s) (hwf : s₀.ctx.WellFormed) (hj : s.ctx.JoinIn j g) :
    s₀.ctx.Has j ↔ s₀.ctx.Has g := by
  obtain ⟨x, hx, -, rfl⟩ := hj
  have hmem : (⟨.group, x.group⟩ : AnyRef) ∈ EntityKind.groupJoin.references x := by simp [EntityKind.references]
  constructor
  · intro hhas
    exact h.has_reference hwf hhas hx _ hmem
  · intro hhas
    by_contra hnew
    exact h.not_has_reference hnew hx _ hmem hhas

/-- A session puts no new join into a group from before it and takes none out. -/
theorem InSession.joinIn_of_has (h : InSession s₀ input [] s) (hwf : s₀.ctx.WellFormed) (hg : s₀.ctx.Has g) :
    s.ctx.JoinIn j g ↔ s₀.ctx.JoinIn j g := by
  constructor
  · intro hj
    have hhas := (h.has_of_joinIn hwf hj).2 hg
    rwa [Context.JoinIn, h.frame j hhas] at hj
  · intro hj
    rwa [Context.JoinIn, h.frame j hj.has]

/-- A join is in a group exactly if the copy of the join is in the copy of the group. -/
theorem InSession.joinIn_copy (h : InSession s₀ input [] s) (hj : s.Copies j j') (hg : s.Copies g g') :
    s.ctx.JoinIn j g ↔ s.ctx.JoinIn j' g' := by
  obtain ⟨x, y, hx, hy, hgroup, -, -, -, -, hrejected⟩ := h.faithful j j' hj (by simp)
  have hiff : x.group = g ↔ y.group = g' := by
    constructor
    · intro heq
      exact h.copy_unique (heq ▸ hgroup) hg
    · intro heq
      exact h.original_unique (heq ▸ hgroup) hg
  simp [Context.JoinIn, hx, hy, hrejected, hiff]

/-- A session keeps groups and joins as they should be. -/
theorem InSession.grouped (h : InSession s₀ input [] s) (ho : s.Ordered) (hwf : s₀.ctx.WellFormed) (hg : s₀.ctx.Grouped) :
    s.ctx.Grouped := by
  have hmem : ∀ {kind : EntityKind} {olds news : List (Ref kind)} {old new : Ref kind}, List.Forall₂ s.Copies olds news →
      s.Copies old new → old ∈ olds → new ∈ news := fun hall hc => (mem_iff_of_forall₂ h.biUnique hall hc).1
  constructor
  case listed =>
    -- A join that was made in the session is the copy of a join, and it is in a copied group only if that join is in the
    -- group: this is why the lists of the originals need not change.
    refine h.inductionOn ho (P := fun (g : GroupId) (y : TableGroup) => ∀ j : GroupJoinId, j ∈ y.joins ↔ s.ctx.JoinIn j g)
      ?_ ?_
    · intro g y hy j
      rw [h.joinIn_of_has hwf (Context.has_of_record? hy)]
      exact hg.listed g y hy j
    · intro g g' y y' hc _ _ hf ih j'
      obtain ⟨-, hjoins, -⟩ := hf
      constructor
      · intro hj'
        obtain ⟨j, hcj⟩ := exists_of_forall₂ hjoins hj'
        exact (h.joinIn_copy hcj hc).1 ((ih j).1 ((mem_iff_of_forall₂ h.biUnique hjoins hcj).2 hj'))
      · intro hj'
        obtain ⟨j, hcj⟩ := h.exists_copies hj'.has fun hhas => h.not_has_copy hc ((h.has_of_joinIn hwf hj').1 hhas)
        exact hmem hjoins hcj ((ih j).2 ((h.joinIn_copy hcj hc).2 hj'))
  case once =>
    refine h.inductionOn ho hg.once ?_
    intro g g' y y' hc _ _ hf ih
    exact (List.rel_nodup h.biUnique hf.2.1).1 ih
  case members =>
    refine h.inductionOn ho (P := fun (j : GroupJoinId) (x : GroupJoin) => x.rejected = false →
      ∃ y : TableGroup, s.ctx.record? x.group = some y ∧ x.parent ∈ y.tables ∧ x.child ∈ y.tables) ?_ ?_
    · intro j x hx hr
      rw [h.frame x.group (hwf.has_groupOf hx)]
      exact hg.members j x hx hr
    · intro j j' x x' hc _ _ hf ih hr'
      obtain ⟨hgroup, hparent, hchild, -, -, hrejected⟩ := hf
      obtain ⟨y, hy, hp, hcl⟩ := ih (hrejected.symm.trans hr')
      obtain ⟨y', hy', htables, -⟩ := h.exists_copy hgroup hy
      exact ⟨y', hy', hmem htables hparent hp, hmem htables hchild hcl⟩
  case distinct =>
    refine h.inductionOn ho hg.distinct ?_
    intro g g' y y' hc _ _ hf ih
    exact (List.rel_nodup h.biUnique hf.1).1 ih
  case parentJoin =>
    refine fun t x j hx => h.inductionOn ho (P := fun (t : SourceId) (x : TableSource) => ∀ j, x.parentJoin = some j →
      ∃ y : GroupJoin, s.ctx.record? j = some y ∧ y.rejected = false ∧ y.child = t) ?_ ?_ t x hx j
    · intro t x hx j hj
      have hhas : s₀.ctx.Has j :=
        hwf.closed t x (Context.has_of_record? hx) hx ⟨.groupJoin, j⟩ (by simp [EntityKind.references, hj])
      rw [h.frame j hhas]
      exact hg.parentJoin t x j hx hj
    · intro t t' x x' hc _ _ hf ih j' hj'
      obtain ⟨-, -, -, -, hjoin⟩ := hf
      obtain ⟨j, hcj⟩ := exists_of_optionRel hjoin (y := j') (by simp [hj'])
      obtain ⟨y, hy, hr, hcl⟩ := ih j ((eq_some_iff_of_optionRel h.biUnique hjoin hcj).2 hj')
      obtain ⟨y', hy', -, -, hchild, -, -, hrejected⟩ := h.exists_copy hcj hy
      rw [hcl] at hchild
      exact ⟨y', hy', hrejected.trans hr, h.copy_unique hchild hc⟩

end Duplication

open Duplication

/-- Induction over reachable contexts with one case for all operations that leave groups and joins alone. -/
@[elab_as_elim]
theorem Reached.induct_links {motive : ∀ ctx supply, Reached ctx supply → Prop}
    (start : ∀ config, motive _ _ (.start config))
    (same : ∀ {ctx ctx' supply supply'} (h : Reached ctx supply) (h' : Reached ctx' supply'), ctx.SameLinks ctx' →
      motive ctx supply h → motive ctx' supply' h')
    (addGroup : ∀ {ctx supply} (first : SourceId) (h : Reached ctx supply) (hf : ctx.Has first),
      motive ctx supply h → motive _ _ (.addGroup first h hf))
    (addGroupJoin : ∀ {ctx ctx' supply} {id : GroupJoinId} (group : GroupId) (parent child : SourceId)
      (conditions : List ConditionId) (join : Catalog.Join) (h : Reached ctx supply) (hg : ctx.Has group)
      (hp : ctx.Has parent) (hc : ctx.Has child) (hok : ctx.addGroupJoin group parent child conditions join = .ok (id, ctx')),
      motive ctx supply h → motive ctx' supply (.addGroupJoin group parent child conditions join h hg hp hc hok))
    (rejectGroupJoin : ∀ {ctx supply} (id : GroupJoinId) (h : Reached ctx supply) (hid : ctx.Has id),
      motive ctx supply h → motive _ _ (.rejectGroupJoin id h hid))
    (mergeGroups : ∀ {ctx supply} (into other : GroupId) (h : Reached ctx supply) (hi : ctx.Has into) (ho : ctx.Has other),
      motive ctx supply h → motive _ _ (.mergeGroups into other h hi ho))
    (session : ∀ {ctx supply} {s : Duplication} (h : Reached ctx supply) (hs : Session ctx supply s),
      motive ctx supply h → motive _ _ (.session h hs))
    {ctx : Context} {supply : Supply} (h : Reached ctx supply) : motive ctx supply h := by
  induction h with
  | start config => exact start config
  | draw h ih => exact same h _ (Context.sameLinks_of_arenas rfl rfl rfl) ih
  | setProperty name value h ih => exact same h _ (Context.sameLinks_of_arenas rfl rfl rfl) ih
  | addTree group h ih => exact same h _ (Context.sameLinks_of_arenas rfl rfl rfl) ih
  | nodeFor tree table h _ ih => exact same h _ (Context.sameLinks_nodeFor tree table) ih
  | addSource node name required h _ ih => exact same h _ (Context.sameLinks_addSource node name required) ih
  | setRequired source required h _ ih => exact same h _ (Context.sameLinks_setRequired source required) ih
  | addGroup first h hf ih => exact addGroup first h hf ih
  | addGroupJoin group parent child conditions join h hg hp hc hok ih =>
    exact addGroupJoin group parent child conditions join h hg hp hc hok ih
  | rejectGroupJoin id h hid ih => exact rejectGroupJoin id h hid ih
  | mergeGroups into other h hi ho ih => exact mergeGroups into other h hi ho ih
  | addKeyJoin parent child conditions foreignKey h _ _ ih => exact same h _ (Context.sameLinks_of_arenas rfl rfl rfl) ih
  | addHashTable t h ih => exact same h _ (Context.sameLinks_of_arenas rfl rfl rfl) ih
  | addBloomFilter f h ih => exact same h _ (Context.sameLinks_of_arenas rfl rfl rfl) ih
  | session h hs ih => exact session h hs ih

/-- No operation and no session takes groups and joins apart. -/
theorem Reached.grouped {ctx : Context} {supply : Supply} (h : Reached ctx supply) : ctx.Grouped := by
  induction h using Reached.induct_links with
  | start config => exact Context.grouped_withConfig config
  | same _ _ hs ih => exact ih.of_sameLinks hs
  | addGroup first hctx _ ih => exact ih.addGroup hctx.wellFormed first
  | addGroupJoin group parent child conditions join _ hg _ _ hok ih => exact ih.addGroupJoin hg hok
  | rejectGroupJoin id _ hid ih => exact ih.rejectGroupJoin hid
  | mergeGroups into other _ hi ho ih => exact ih.mergeGroups hi ho
  | session hctx hs ih => exact (hs.inSession hctx.wellFormed).grouped (hs.ordered hctx.wellFormed) hctx.wellFormed ih

namespace OrdersOfCustomers

/-- The join that came with the second group is rejected in the first. -/
def merged : Context := together.rejectGroupJoin ⟨1⟩

/-- The merged group is copied. -/
def copied : Duplication := (entity .group ⟨0⟩ { ctx := merged, supply := {} }).2

theorem reached_merged : Reached merged {} := .rejectGroupJoin ⟨1⟩ reached_together (by decide)

end OrdersOfCustomers

end ClusterPlan
