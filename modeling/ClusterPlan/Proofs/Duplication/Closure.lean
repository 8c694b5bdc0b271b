import ClusterPlan.Proofs.Duplication.Ending
import ClusterPlan.Proofs.Duplication.JoinTags
import ClusterPlan.Proofs.Duplication.Repeated

/-!
# What the calls of a session add

Whatever is asked of a session, and in whatever order: each call ends, what is asked again gets the same answer, and of each
kind as many entities are added as there are entities that the references lead to from what was asked for
(`copiesOnce_of_calls`). For nothing else is copied, a copy is there for all that a copied entity refers to, and no entity is
copied twice.
-/

namespace ClusterPlan.Duplication

variable {kind : EntityKind} {ctx : Context} {supply : Supply} {s : Duplication} {calls : List Call}

/-- As many entities were added as have a copy. -/
theorem Tabulates.size_eq {lo hi bound : Nat} {entries : List (Ref kind × Ref kind)} (h : Tabulates lo hi bound entries) :
    hi = lo + entries.length := by
  have hindices : (entries.map (·.2.index)).Perm (List.range' lo (hi - lo)) := by
    refine (List.perm_ext_iff_of_nodup ?_ List.nodup_range').2 fun i => ?_
    · have hnodup := h.copies.map (f := Ref.index) fun _ _ heq => Ref.eq_of_index heq
      rwa [List.map_map] at hnodup
    · have hmem : i ∈ entries.map (·.2.index) ↔ (⟨i⟩ : Ref kind) ∈ entries.map (·.2) := by
        rw [← List.mem_map_of_injective (f := Ref.index) fun _ _ heq => Ref.eq_of_index heq, List.map_map]
        rfl
      have hle := h.le
      rw [hmem, h.mem_copies, List.mem_range'_1]
      dsimp only
      omega
  have hlength := hindices.length_eq
  have hle := h.le
  rw [List.length_map, List.length_range'] at hlength
  omega

/-! ## Sequences of calls -/

/-- The session that calls one after the other lead to. -/
def afterCalls (ctx : Context) (supply : Supply) (calls : List Call) : Duplication := calls.foldl Call.apply { ctx, supply }

/-- An entity is reached from one that a call asks for. -/
def Asked (calls : List Call) (ctx : Context) (b : AnyRef) : Prop :=
  ∃ a, .entity a ∈ calls ∧ Relation.ReflTransGen ctx.Refers a b

/-- A call keeps what the call for its mention keeps. -/
theorem Call.keeps {I : Duplication → Prop} {c : Call} (h : KeepsCall I c.mention) (hs : I s) :
    I (c.apply s) ∧ s.Extends (c.apply s) := by
  cases c with
  | entity ref => exact ⟨(h s hs).1, (h s hs).2.1⟩
  | condition c => exact ⟨(h s hs).1, (h s hs).2.1⟩
  | nodeNumber id => exact ⟨(h s hs).1, (h s hs).2.1⟩
  | copyNumber id => exact ⟨(h s hs).1, (h s hs).2.1⟩

theorem keeps_calls {I : Duplication → Prop} (h : ∀ c ∈ calls, KeepsCall I c.mention) (hs : I s) :
    I (calls.foldl Call.apply s) ∧ s.Extends (calls.foldl Call.apply s) := by
  induction calls generalizing s with
  | nil => exact ⟨hs, .refl s⟩
  | cons c calls ih =>
    obtain ⟨hs₁, hext₁⟩ := Call.keeps (h c List.mem_cons_self) hs
    obtain ⟨hs₂, hext₂⟩ := ih (fun c' hc' => h c' (List.mem_cons_of_mem c hc')) hs₁
    exact ⟨hs₂, hext₁.trans hext₂⟩

/-- What the calls of a session on entities from before it do. -/
structure CopiesOnce (ctx : Context) (supply : Supply) (calls : List Call) : Prop where
  /-- Each call ends. -/
  ends : ∀ (i : Nat) (ref : AnyRef), calls[i]? = some (.entity ref) →
    Ends ref.2 (afterCalls ctx supply (calls.take i)) (entity ref.1 ref.2 (afterCalls ctx supply (calls.take i))).1
      (entity ref.1 ref.2 (afterCalls ctx supply (calls.take i))).2
  /-- What is asked again gets the same answer. -/
  entity : ∀ (i j : Nat) (ref : AnyRef), calls[i]? = some (.entity ref) → calls[j]? = some (.entity ref) →
    (entity ref.1 ref.2 (afterCalls ctx supply (calls.take i))).1 = (entity ref.1 ref.2 (afterCalls ctx supply (calls.take j))).1
  condition : ∀ (i j : Nat) (c : ConditionId), calls[i]? = some (.condition c) → calls[j]? = some (.condition c) →
    (condition c (afterCalls ctx supply (calls.take i))).1 = (condition c (afterCalls ctx supply (calls.take j))).1
  /-- Of each kind as many entities are added as are reached from those that were asked for. -/
  added : ∀ kind, ∃ olds : List (Ref kind), olds.Nodup ∧ (∀ r, r ∈ olds ↔ Asked calls ctx ⟨kind, r⟩) ∧
    ((afterCalls ctx supply calls).ctx.arena kind).size = (ctx.arena kind).size + olds.length

section Calls

variable (hctx : Reached ctx supply) (hvalid : ∀ c ∈ calls, c.Valid { ctx, supply })
include hctx hvalid

/-- The calls copy only what is reached from what they ask for. -/
theorem keepsCall_asked : ∀ c ∈ calls,
    KeepsCall (fun s => InSession { ctx, supply } ctx [] s ∧ Confined (Asked calls ctx) [] s) c.mention := by
  have hclosed := hctx.wellFormed.closed
  have hhas : ∀ ref, .entity ref ∈ calls → ctx.Has ref.2 := fun ref href => hvalid _ href
  intro c hc
  refine keepsCall_confined _ hclosed (Context.closedBare_reached hclosed hhas) fun ref href => ⟨ref, ?_, .refl⟩
  cases c with
  | entity ref' => exact Mention.entity.inj href ▸ hc
  | _ => cases href

/-- What holds after some of the calls. -/
theorem inSession_take (i : Nat) :
    InSession { ctx, supply } ctx [] (afterCalls ctx supply (calls.take i)) ∧
      Confined (Asked calls ctx) [] (afterCalls ctx supply (calls.take i)) := by
  have hkeeps := keepsCall_asked hctx hvalid
  have hstart : InSession { ctx, supply } ctx [] { ctx, supply } ∧ Confined (Asked calls ctx) [] { ctx, supply } :=
    ⟨inSession_start hctx.wellFormed supply, confined_start hctx.registered supply _⟩
  exact (keeps_calls (fun c hc => hkeeps c (List.mem_of_mem_take hc)) hstart).1

/-- The session goes on from each of the calls. -/
theorem extends_afterCalls {i : Nat} {c : Call} (hc : calls[i]? = some c) :
    (c.apply (afterCalls ctx supply (calls.take i))).Extends (afterCalls ctx supply calls) := by
  have hkeeps := keepsCall_asked hctx hvalid
  have hsplit : calls = calls.take i ++ c :: calls.drop (i + 1) := by
    obtain ⟨hlt, rfl⟩ := List.getElem?_eq_some_iff.1 hc
    rw [← List.drop_eq_getElem_cons hlt, List.take_append_drop]
  have hall : afterCalls ctx supply calls =
      (calls.drop (i + 1)).foldl Call.apply (c.apply (afterCalls ctx supply (calls.take i))) := by
    rw [afterCalls, afterCalls, ← List.foldl_cons, ← List.foldl_append, ← hsplit]
  have hafter := (Call.keeps (hkeeps c (List.mem_of_getElem? hc)) (inSession_take hctx hvalid i)).1
  rw [hall]
  exact (keeps_calls (fun c hc => hkeeps c (List.mem_of_mem_drop hc)) hafter).2

/-- The answer of a call is noted for good. -/
theorem copies_afterCalls {i : Nat} {ref : AnyRef} (hi : calls[i]? = some (.entity ref)) :
    (afterCalls ctx supply calls).Copies ref.2 (entity ref.1 ref.2 (afterCalls ctx supply (calls.take i))).1 := by
  have hhas : ctx.Has ref.2 := hvalid _ (List.mem_of_getElem? hi)
  have hcopy := (keeps_entity hctx.wellFormed.closed hhas _ (inSession_take hctx hvalid i).1).2.2
  exact (extends_afterCalls hctx hvalid hi).copies hcopy

/-- The answer to a call for a condition is still its copy after all calls. -/
theorem copiesCondition_afterCalls {i : Nat} {c : ConditionId} (hi : calls[i]? = some (.condition c)) :
    (afterCalls ctx supply calls).CopiesCondition c (condition c (afterCalls ctx supply (calls.take i))).1 :=
  (extends_afterCalls hctx hvalid hi).copiesCondition (keeps_condition c _ (inSession_take hctx hvalid i).1).2.2

/-- An entity gets a copy exactly if it is reached from one that a call asks for. -/
theorem mem_originals_iff (r : Ref kind) :
    r ∈ ((afterCalls ctx supply calls).entries kind).map (·.1) ↔ Asked calls ctx ⟨kind, r⟩ := by
  obtain ⟨h, hconfined⟩ := inSession_take hctx hvalid calls.length
  rw [List.take_length] at h hconfined
  constructor
  · intro hr
    obtain ⟨entry, hentry, rfl⟩ := List.mem_map.1 hr
    exact hconfined.originals entry.1 entry.2 hentry
  · rintro ⟨a, ha, har⟩
    obtain ⟨i, hi⟩ := List.getElem?_of_mem ha
    obtain ⟨new, hnew⟩ := h.copied_of_reached har ⟨_, copies_afterCalls hctx hvalid hi⟩
    exact List.mem_map_of_mem hnew

/-- Every sequence of calls of one session on entities from before it copies each entity that is reached once. -/
theorem copiesOnce_of_calls : CopiesOnce ctx supply calls := by
  obtain ⟨h, -⟩ := inSession_take hctx hvalid calls.length
  rw [List.take_length] at h
  constructor
  case ends =>
    intro i ref hi
    have hhas : ctx.Has ref.2 := hvalid _ (List.mem_of_getElem? hi)
    exact ends_entity hctx.wellFormed.closed hhas _ (inSession_take hctx hvalid i).1
  case entity =>
    intro i j ref hi hj
    exact value_unique (h.table ref.1).originals (copies_afterCalls hctx hvalid hi) (copies_afterCalls hctx hvalid hj)
  case condition =>
    intro i j c hi hj
    exact value_unique h.numbered.conditions (copiesCondition_afterCalls hctx hvalid hi) (copiesCondition_afterCalls hctx hvalid hj)
  case added =>
    intro kind
    refine ⟨((afterCalls ctx supply calls).entries kind).map (·.1), (h.table kind).originals,
      mem_originals_iff hctx hvalid, ?_⟩
    rw [List.length_map]
    exact (h.table kind).size_eq

end Calls

namespace MergedOrders

/-- The group that was merged into another one, a join and a condition of that group, and the join again. -/
def requests : List Call := [.entity ⟨.group, ⟨1⟩⟩, .entity ⟨.groupJoin, ⟨0⟩⟩, .condition ⟨1⟩, .entity ⟨.groupJoin, ⟨0⟩⟩]

end MergedOrders

open OrdersOfCustomers MergedOrders in
/-- The group, its sources and its join refer to each other in circles. The first call copies all of them, and the others find
what they ask for. -/
theorem copiesOnce_of_merged_orders :
    (∀ c ∈ requests, c.Valid { ctx := merged, supply := {} }) ∧
      (afterCalls merged {} requests).groups = [(⟨0⟩, ⟨3⟩), (⟨1⟩, ⟨2⟩)] ∧
      (afterCalls merged {} requests).sources = [(⟨2⟩, ⟨5⟩), (⟨1⟩, ⟨4⟩), (⟨0⟩, ⟨3⟩)] ∧ CopiesOnce merged {} requests :=
  ⟨by decide, by decide +kernel, by decide +kernel, copiesOnce_of_calls reached_merged (by decide)⟩

end ClusterPlan.Duplication
