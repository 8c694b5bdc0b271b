import ClusterPlan.Proofs.Duplication.Session
import ClusterPlan.Proofs.Stepwise

/-!
# Operations one after the other

`Operation` has the operations of a context as data, whole sessions among them, so that a run is a list of operations. What an
operation needs and what it does depends on the state that it is reached in.
-/

namespace ClusterPlan

namespace Duplication

/-- A call of a session. -/
inductive Call where
  | entity (ref : AnyRef)
  | condition (c : ConditionId)
  | nodeNumber (id : Int)
  | copyNumber (id : Int)

namespace Call

def apply (s : Duplication) : Call → Duplication
  | entity ref => (Duplication.entity ref.1 ref.2 s).2
  | condition c => (Duplication.condition c s).2
  | nodeNumber id => (Duplication.nodeNumber id s).2
  | copyNumber id => (Duplication.copyNumber id s).2

/-- Only entities that there are can be copied. -/
def Valid (s : Duplication) : Call → Prop
  | entity ref => s.ctx.Has ref.2
  | condition _ | nodeNumber _ | copyNumber _ => True

instance (s : Duplication) (c : Call) : Decidable (c.Valid s) := by
  cases c <;> unfold Valid <;> infer_instance

end Call

/-- One more call continues a session. -/
theorem Session.apply {ctx : Context} {supply : Supply} {s : Duplication} (h : Session ctx supply s) {c : Call}
    (hc : c.Valid s) : Session ctx supply (c.apply s) := by
  cases c with
  | entity ref => exact .entity ref.2 h hc
  | condition c => exact .condition c h
  | nodeNumber id => exact .nodeNumber id h
  | copyNumber id => exact .copyNumber id h

end Duplication

open Duplication

/-- An operation on a context and the supply of numbers. -/
inductive Operation where
  | draw
  | setProperty (name value : String)
  | addTree (group : Option Catalog.Group)
  | nodeFor (tree : TreeId) (table : Catalog.Table)
  | addSource (node : NodeId) (name : String) (required : Bool)
  | setRequired (source : SourceId) (required : Bool)
  | addGroup (first : SourceId)
  | addGroupJoin (group : GroupId) (parent child : SourceId) (conditions : List ConditionId) (join : Catalog.Join)
  | rejectGroupJoin (id : GroupJoinId)
  | mergeGroups (into other : GroupId)
  | addKeyJoin (parent child : SourceId) (conditions : List ConditionId) (foreignKey : Catalog.ForeignKey)
  | addHashTable (t : HashTable)
  | addBloomFilter (f : BloomFilter)
  | duplicate (calls : List Call)

namespace Operation

/-- A group join that is refused changes nothing. -/
def apply (st : Context × Supply) : Operation → Context × Supply
  | draw => (st.1, st.2.draw.2)
  | setProperty name value => (st.1.setProperty name value, st.2)
  | addTree group => ((st.1.addTree group).2, st.2)
  | nodeFor tree table => ((st.1.nodeFor tree table).2, st.2)
  | addSource node name required => ((st.1.addSource node name required).2, st.2)
  | setRequired source required => (st.1.setRequired source required, st.2)
  | addGroup first => ((st.1.addGroup first).2, st.2)
  | addGroupJoin group parent child conditions join =>
    match st.1.addGroupJoin group parent child conditions join with
    | .ok (_, ctx) => (ctx, st.2)
    | .error _ => st
  | rejectGroupJoin id => (st.1.rejectGroupJoin id, st.2)
  | mergeGroups into other => (st.1.mergeGroups into other, st.2)
  | addKeyJoin parent child conditions foreignKey => ((st.1.addKeyJoin parent child conditions foreignKey).2, st.2)
  | addHashTable t => ((st.1.addHashTable t).2, st.2)
  | addBloomFilter f => ((st.1.addBloomFilter f).2, st.2)
  | duplicate calls =>
    let s := calls.foldl Call.apply { ctx := st.1, supply := st.2 }
    (s.ctx, s.supply)

/-- An operation is given references to entities that there are. -/
def Valid (st : Context × Supply) : Operation → Prop
  | draw | setProperty _ _ | addTree _ | addHashTable _ | addBloomFilter _ => True
  | nodeFor tree _ => st.1.Has tree
  | addSource node _ _ => st.1.Has node
  | setRequired source _ => st.1.Has source
  | addGroup first => st.1.Has first
  | addGroupJoin group parent child _ _ => st.1.Has group ∧ st.1.Has parent ∧ st.1.Has child
  | rejectGroupJoin id => st.1.Has id
  | mergeGroups into other => st.1.Has into ∧ st.1.Has other
  | addKeyJoin parent child _ _ => st.1.Has parent ∧ st.1.Has child
  | duplicate calls => Along Call.apply (fun s c => c.Valid s) { ctx := st.1, supply := st.2 } calls

instance (st : Context × Supply) (op : Operation) : Decidable (op.Valid st) := by
  cases op <;> unfold Valid <;> infer_instance

/-- A group join is added, or it does not follow the hierarchy of the tables and changes nothing. -/
theorem addGroupJoin_cases (st : Context × Supply) (group : GroupId) (parent child : SourceId)
    (conditions : List ConditionId) (join : Catalog.Join) :
    (∃ r, st.1.addGroupJoin group parent child conditions join = .ok r ∧
      apply st (addGroupJoin group parent child conditions join) = (r.2, st.2)) ∨
    st.1.joins join parent child = false ∧ apply st (addGroupJoin group parent child conditions join) = st := by
  cases hok : st.1.addGroupJoin group parent child conditions join with
  | ok r => exact Or.inl ⟨r, rfl, by simp only [apply, hok]⟩
  | error e =>
    refine Or.inr ⟨Bool.eq_false_iff.2 fun hj => ?_, by simp only [apply, hok]⟩
    rw [Context.addGroupJoin, if_pos hj] at hok
    cases hok

end Operation

/-- The calls of a session make a session. -/
theorem session_of_along {ctx : Context} {supply : Supply} {calls : List Call}
    (h : Along Call.apply (fun s c => c.Valid s) { ctx, supply } calls) :
    Session ctx supply (calls.foldl Call.apply { ctx, supply }) :=
  (h.throughout (I := Session ctx supply) (fun _ _ hs hc => hs.apply hc) .start).last

/-- An operation on what is there leads from a reached context to a reached one. -/
theorem Reached.apply {st : Context × Supply} (h : Reached st.1 st.2) {op : Operation} (hv : op.Valid st) :
    Reached (Operation.apply st op).1 (Operation.apply st op).2 := by
  cases op with
  | draw => exact h.draw
  | setProperty name value => exact h.setProperty name value
  | addTree group => exact h.addTree group
  | nodeFor tree table => exact h.nodeFor tree table hv
  | addSource node name required => exact h.addSource node name required hv
  | setRequired source required => exact h.setRequired source required hv
  | addGroup first => exact h.addGroup first hv
  | addGroupJoin group parent child conditions join =>
    rcases Operation.addGroupJoin_cases st group parent child conditions join with ⟨r, hok, heq⟩ | ⟨-, heq⟩
    · rw [heq]
      exact h.addGroupJoin group parent child conditions join hv.1 hv.2.1 hv.2.2 hok
    · rwa [heq]
  | rejectGroupJoin id => exact h.rejectGroupJoin id hv
  | mergeGroups into other => exact h.mergeGroups into other hv.1 hv.2
  | addKeyJoin parent child conditions foreignKey => exact h.addKeyJoin parent child conditions foreignKey hv.1 hv.2
  | addHashTable t => exact h.addHashTable t
  | addBloomFilter f => exact h.addBloomFilter f
  | duplicate calls => exact h.session (session_of_along hv)

/-- Where the operations of a run lead. -/
theorem reached_of_run (config : Config) (ops : List Operation)
    (h : Along Operation.apply (fun st op => op.Valid st) (Context.withConfig config, {}) ops) :
    Reached (ops.foldl Operation.apply (Context.withConfig config, {})).1
      (ops.foldl Operation.apply (Context.withConfig config, {})).2 :=
  (h.throughout (I := fun st => Reached st.1 st.2) (fun _ _ hst hop => hst.apply hop) (.start config)).last

/-- The states of a session are where calls lead. -/
theorem Duplication.Session.exists_calls {ctx : Context} {supply : Supply} {s : Duplication} (h : Session ctx supply s) :
    ∃ calls, Along Call.apply (fun s c => c.Valid s) { ctx, supply } calls ∧ calls.foldl Call.apply { ctx, supply } = s := by
  have hmore : ∀ {s : Duplication} {c : Call}, c.Valid s →
      (∃ calls, Along Call.apply (fun s c => c.Valid s) { ctx, supply } calls ∧ calls.foldl Call.apply { ctx, supply } = s) →
      ∃ calls, Along Call.apply (fun s c => c.Valid s) { ctx, supply } calls ∧
        calls.foldl Call.apply { ctx, supply } = c.apply s := by
    rintro s c hc ⟨calls, hcalls, rfl⟩
    exact ⟨calls ++ [c], along_concat.2 ⟨hcalls, hc⟩, List.foldl_concat ..⟩
  induction h with
  | start => exact ⟨[], trivial, rfl⟩
  | entity r _ hr ih => exact hmore (c := .entity ⟨_, r⟩) hr ih
  | condition c _ ih => exact hmore (c := .condition c) trivial ih
  | nodeNumber id _ ih => exact hmore (c := .nodeNumber id) trivial ih
  | copyNumber id _ ih => exact hmore (c := .copyNumber id) trivial ih

/-- What holds of an empty context and is kept by each operation holds of every reachable context. -/
theorem Reached.inductionOn {P : Context × Supply → Prop} (hstart : ∀ config, P (Context.withConfig config, {}))
    (hstep : ∀ st op, Reached st.1 st.2 → op.Valid st → P st → P (Operation.apply st op)) {ctx : Context} {supply : Supply}
    (h : Reached ctx supply) : P (ctx, supply) := by
  induction h with
  | start config => exact hstart config
  | draw h ih => exact hstep (_, _) .draw h trivial ih
  | setProperty name value h ih => exact hstep (_, _) (.setProperty name value) h trivial ih
  | addTree group h ih => exact hstep (_, _) (.addTree group) h trivial ih
  | nodeFor tree table h ht ih => exact hstep (_, _) (.nodeFor tree table) h ht ih
  | addSource node name required h hn ih => exact hstep (_, _) (.addSource node name required) h hn ih
  | setRequired source required h hs ih => exact hstep (_, _) (.setRequired source required) h hs ih
  | addGroup first h hf ih => exact hstep (_, _) (.addGroup first) h hf ih
  | addGroupJoin group parent child conditions join h hg hp hc hok ih =>
    have hnext := hstep (_, _) (.addGroupJoin group parent child conditions join) h ⟨hg, hp, hc⟩ ih
    simpa only [Operation.apply, hok] using hnext
  | rejectGroupJoin id h hid ih => exact hstep (_, _) (.rejectGroupJoin id) h hid ih
  | mergeGroups into other h hi ho ih => exact hstep (_, _) (.mergeGroups into other) h ⟨hi, ho⟩ ih
  | addKeyJoin parent child conditions foreignKey h hp hc ih =>
    exact hstep (_, _) (.addKeyJoin parent child conditions foreignKey) h ⟨hp, hc⟩ ih
  | addHashTable t h ih => exact hstep (_, _) (.addHashTable t) h trivial ih
  | addBloomFilter f h ih => exact hstep (_, _) (.addBloomFilter f) h trivial ih
  | session h hs ih =>
    obtain ⟨calls, hcalls, rfl⟩ := hs.exists_calls
    exact hstep (_, _) (.duplicate calls) h hcalls ih

end ClusterPlan
