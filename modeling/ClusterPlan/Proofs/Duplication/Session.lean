import ClusterPlan.Proofs.Context.Trees
import ClusterPlan.Proofs.Duplication.Calls

/-!
# Sessions on reachable contexts

`Reached` are the contexts that the operations lead to, among them whole sessions, and `Session` the states that the calls of a
session lead to. A session isolates its copies (`isolated_of_session`): what was there before is unchanged, each copy is
faithful, and no reference leads from a new entity to an old one. So whatever is done to copies later, the originals stay.
-/

namespace ClusterPlan

namespace Duplication

variable {kind : EntityKind} {ctx : Context} {supply : Supply} {s s₀ : Duplication}

/-- The call that copies an entity of a kind. -/
def entity : (kind : EntityKind) → Ref kind → Copying (Ref kind)
  | .tree => tree
  | .node => node
  | .source => source
  | .group => group
  | .groupJoin => groupJoin
  | .keyJoin => keyJoin
  | .hashTable => hashTable
  | .bloomFilter => bloomFilter

/-- The states that a session on a context leads to. -/
inductive Session (ctx : Context) (supply : Supply) : Duplication → Prop where
  | start : Session ctx supply { ctx, supply }
  | entity {s : Duplication} {kind : EntityKind} (r : Ref kind) :
      Session ctx supply s → s.ctx.Has r → Session ctx supply (entity kind r s).2
  | condition {s : Duplication} (c : ConditionId) : Session ctx supply s → Session ctx supply (condition c s).2
  | nodeNumber {s : Duplication} (id : Int) : Session ctx supply s → Session ctx supply (nodeNumber id s).2
  | copyNumber {s : Duplication} (id : Int) : Session ctx supply s → Session ctx supply (copyNumber id s).2

/-- Every call for an entity keeps the session in order and answers with the copy. -/
theorem keeps_entity {input : Context} {pending : List AnyRef} (hin : input.Closed) {r : Ref kind} (hr : input.Has r) :
    Keeps (InSession s₀ input pending) (entity kind r) fun s new => s.Copies r new := by
  cases kind with
  | tree => exact keeps_tree hin hr
  | node => exact keeps_node hin hr
  | source => exact keeps_source hin hr
  | group => exact keeps_group hin hr
  | groupJoin => exact keeps_groupJoin hin hr
  | keyJoin => exact keeps_keyJoin hin hr
  | hashTable => exact keeps_hashTable hr
  | bloomFilter => exact keeps_bloomFilter hr

/-- The next call starts from where the last one ended. -/
theorem InSession.rebase {input : Context} (h : InSession s₀ input [] s) : InSession s₀ s.ctx [] s := by
  refine ⟨⟨h.wellFormed, h.frame, .refl _, ?_, h.noLoose, h.numbered, h.joins⟩, h.pendingNodup, ?_, h.faithful, h.uses⟩
  · intro kind
    have ht := h.table kind
    refine ⟨ht.le, ht.originals, ht.copies, ht.mem_copies, ?_⟩
    intro r hr
    exact Nat.lt_of_lt_of_le (ht.lt_bound r hr) (h.kept.size_le kind)
  · intro ref href
    cases href

/-- A session starts with no copies and in order. -/
theorem inSession_start (hwf : ctx.WellFormed) (supply : Supply) : InSession { ctx, supply } ctx [] { ctx, supply } := by
  have hnone : ∀ kind, ({ ctx, supply } : Duplication).entries kind = [] := by
    intro kind
    cases kind <;> rfl
  have hcopies : ∀ {kind : EntityKind} {a b : Ref kind}, ¬({ ctx, supply } : Duplication).Copies a b := by
    intro kind a b hab
    rw [Copies, hnone] at hab
    cases hab
  refine ⟨⟨hwf, fun _ _ _ => rfl, .refl _, ?_, rfl, ?_, fun _ _ => rfl⟩, List.nodup_nil, ?_, ?_, ?_⟩
  · intro kind
    rw [hnone]
    refine ⟨Nat.le_refl _, List.nodup_nil, List.nodup_nil, ?_, ?_⟩
    · intro r
      simp only [List.map_nil, List.not_mem_nil, false_iff, not_and, Nat.not_lt, imp_self]
    · intro r hr
      cases hr
  · refine ⟨Int.le_refl _, ?_, List.nodup_nil, List.nodup_nil, List.nodup_nil, ?_⟩ <;>
    · intro n hn
      cases hn
  · intro ref href
    cases href
  · intro kind a b hab
    exact absurd hab hcopies
  · intro a b y hab
    exact absurd hab hcopies

/-- What holds between the calls of a session. -/
theorem Session.inSession (hwf : ctx.WellFormed) (h : Session ctx supply s) : InSession { ctx, supply } s.ctx [] s := by
  induction h with
  | start => exact inSession_start hwf supply
  | entity r _ hr ih => exact (keeps_entity ih.wellFormed.closed hr _ ih).1.rebase
  | condition c _ ih => exact (keeps_condition c _ ih).1.rebase
  | nodeNumber id _ ih => exact (keeps_nodeNumber id _ ih).1.rebase
  | copyNumber id _ ih => exact (keeps_copyNumber id _ ih).1.rebase

end Duplication

open Duplication

/-- The contexts that the operations lead to, each with the supply of numbers that plan nodes and conditions are drawn from. -/
inductive Reached : Context → Supply → Prop where
  | start (config : Config) : Reached (.withConfig config) {}
  | draw {ctx supply} : Reached ctx supply → Reached ctx supply.draw.2
  | setProperty {ctx supply} (name value : String) : Reached ctx supply → Reached (ctx.setProperty name value) supply
  | addTree {ctx supply} (group : Option Catalog.Group) : Reached ctx supply → Reached (ctx.addTree group).2 supply
  | nodeFor {ctx supply} (tree : TreeId) (table : Catalog.Table) :
      Reached ctx supply → ctx.Has tree → Reached (ctx.nodeFor tree table).2 supply
  | addSource {ctx supply} (node : NodeId) (name : String) (required : Bool) :
      Reached ctx supply → ctx.Has node → Reached (ctx.addSource node name required).2 supply
  | setRequired {ctx supply} (source : SourceId) (required : Bool) :
      Reached ctx supply → ctx.Has source → Reached (ctx.setRequired source required) supply
  | addGroup {ctx supply} (first : SourceId) : Reached ctx supply → ctx.Has first → Reached (ctx.addGroup first).2 supply
  | addGroupJoin {ctx ctx' supply} {id : GroupJoinId} (group : GroupId) (parent child : SourceId)
      (conditions : List ConditionId) (join : Catalog.Join) :
      Reached ctx supply → ctx.Has group → ctx.Has parent → ctx.Has child →
      ctx.addGroupJoin group parent child conditions join = .ok (id, ctx') → Reached ctx' supply
  | rejectGroupJoin {ctx supply} (id : GroupJoinId) : Reached ctx supply → ctx.Has id → Reached (ctx.rejectGroupJoin id) supply
  | mergeGroups {ctx supply} (into other : GroupId) :
      Reached ctx supply → ctx.Has into → ctx.Has other → Reached (ctx.mergeGroups into other) supply
  | addKeyJoin {ctx supply} (parent child : SourceId) (conditions : List ConditionId) (foreignKey : Catalog.ForeignKey) :
      Reached ctx supply → ctx.Has parent → ctx.Has child →
      Reached (ctx.addKeyJoin parent child conditions foreignKey).2 supply
  | addHashTable {ctx supply} (t : HashTable) : Reached ctx supply → Reached (ctx.addHashTable t).2 supply
  | addBloomFilter {ctx supply} (f : BloomFilter) : Reached ctx supply → Reached (ctx.addBloomFilter f).2 supply
  | session {ctx supply} {s : Duplication} : Reached ctx supply → Session ctx supply s → Reached s.ctx s.supply

/-- No operation and no session lets a reference lead out of the context. -/
theorem Reached.wellFormed {ctx : Context} {supply : Supply} (h : Reached ctx supply) : ctx.WellFormed := by
  induction h with
  | start config => exact Context.wellFormed_withConfig config
  | draw _ ih => exact ih
  | setProperty name value _ ih => exact ih.setProperty name value
  | addTree group _ ih => exact ih.addTree group
  | nodeFor tree table _ ht ih => exact (ih.nodeFor ht table).1
  | addSource node name required _ hn ih => exact ih.addSource hn name required
  | setRequired source required _ hs ih => exact ih.setRequired hs required
  | addGroup first _ hf ih => exact ih.addGroup hf
  | addGroupJoin group parent child conditions join _ hg hp hc hok ih => exact ih.addGroupJoin hg hp hc hok
  | rejectGroupJoin id _ hid ih => exact ih.rejectGroupJoin hid
  | mergeGroups into other _ hi ho ih => exact ih.mergeGroups hi ho
  | addKeyJoin parent child conditions foreignKey _ hp hc ih => exact ih.addKeyJoin hp hc conditions foreignKey
  | addHashTable t _ ih => exact ih.addHashTable t
  | addBloomFilter f _ ih => exact ih.addBloomFilter f
  | session _ hs ih => exact (hs.inSession ih).wellFormed

end ClusterPlan
