import ClusterPlan.Proofs.Duplication.Session

/-!
# Calls end

The calls of a session are meant to call each other without any bound, as long as they meet entities that have no copy. `Ends`
is this recursion: a derivation is a finite tree of calls. Entities may refer to each other in any way, for a call enters its
entity before it makes other calls, and what was entered is found. So every call ends, with the answer and the state that the
fuel gives it (`ends_entity`), and it ends in one way only (`Ends.unique`).
-/

namespace ClusterPlan.Duplication

variable {kind : EntityKind} {s₀ s : Duplication} {input : Context} {pending : List AnyRef} {fuel : Nat}

/-! ## The recursion -/

mutual

/-- A call ends with an answer and a state. The calls that it makes have to end before. -/
inductive Ends : {kind : EntityKind} → Ref kind → Duplication → Ref kind → Duplication → Prop where
  /-- A copy that is there is the answer. -/
  | found {kind : EntityKind} {old new : Ref kind} {s : Duplication} :
      kind ≠ .node → (s.entries kind).lookup old = some new → Ends old s new s
  /-- A tree is copied with its nodes without another call. -/
  | tree (old : TreeId) (s : Duplication) : Ends old s (tree old s).1 (tree old s).2
  | node (old : NodeId) (s : Duplication) : Ends old s (node old s).1 (node old s).2
  | source {old : SourceId} {x : TableSource} {n : NodeId} {group : Option GroupId} {parentJoin : Option GroupJoinId}
      {s s₁ s₂ s₃ : Duplication} :
      s.sources.lookup old = none → s.ctx.record? old = some x →
      Ends x.node (s.enter .source old x) n s₁ →
      EndsAll x.group.toList s₁ group.toList s₂ →
      EndsAll x.parentJoin.toList s₂ parentJoin.toList s₃ →
      Ends old s (s.ctx.insert .source x).1
        ((s₃.change (s.ctx.insert .source x).1 fun _ => { x with node := n, group, parentJoin }).change n
          (·.addUse (s.ctx.insert .source x).1))
  | group {old : GroupId} {g : TableGroup} {tables : List SourceId} {joins : List GroupJoinId} {mergedInto : Option GroupId}
      {s s₁ s₂ s₃ : Duplication} :
      s.groups.lookup old = none → s.ctx.record? old = some g →
      EndsAll g.tables (s.enter .group old g) tables s₁ →
      EndsAll g.joins s₁ joins s₂ →
      EndsAll g.mergedInto.toList s₂ mergedInto.toList s₃ →
      Ends old s (s.ctx.insert .group g).1 (s₃.change (s.ctx.insert .group g).1 fun _ => { tables, joins, mergedInto })
  | groupJoin {old : GroupJoinId} {j : GroupJoin} {group : GroupId} {parent child : SourceId} {s s₁ s₂ s₃ : Duplication} :
      s.groupJoins.lookup old = none → s.ctx.record? old = some j →
      Ends j.group (s.enter .groupJoin old j) group s₁ →
      Ends j.parent s₁ parent s₂ →
      Ends j.child s₂ child s₃ →
      Ends old s (s.ctx.insert .groupJoin j).1
        (((j.conditions.mapM condition s₃).2.register (j.conditions.mapM condition s₃).1 (s.ctx.insert .groupJoin j).1).change
          (s.ctx.insert .groupJoin j).1 fun _ => { j with group, parent, child, conditions := (j.conditions.mapM condition s₃).1 })
  | keyJoin {old : KeyJoinId} {j : KeyJoin} {parent child : SourceId} {s s₁ s₂ : Duplication} :
      s.keyJoins.lookup old = none → s.ctx.record? old = some j →
      Ends j.parent (s.enter .keyJoin old j) parent s₁ →
      Ends j.child s₁ child s₂ →
      Ends old s (s.ctx.insert .keyJoin j).1
        ((j.conditions.mapM condition s₂).2.change (s.ctx.insert .keyJoin j).1 fun _ =>
          { j with parent, child, conditions := (j.conditions.mapM condition s₂).1 })
  | hashTable {old : HashTableId} {t : HashTable} {s : Duplication} :
      s.hashTables.lookup old = none → s.ctx.record? old = some t →
      Ends old s (s.ctx.insert .hashTable t).1 (s.enter .hashTable old t)
  | bloomFilter {old : BloomFilterId} {f : BloomFilter} {s : Duplication} :
      s.bloomFilters.lookup old = none → s.ctx.record? old = some f →
      Ends old s (s.ctx.insert .bloomFilter f).1 (s.enter .bloomFilter old f)

/-- The calls for several entities end one after the other. -/
inductive EndsAll : {kind : EntityKind} → List (Ref kind) → Duplication → List (Ref kind) → Duplication → Prop where
  | nil {kind : EntityKind} {s : Duplication} : EndsAll ([] : List (Ref kind)) s [] s
  | cons {kind : EntityKind} {old new : Ref kind} {olds news : List (Ref kind)} {s s₁ s₂ : Duplication} :
      Ends old s new s₁ → EndsAll olds s₁ news s₂ → EndsAll (old :: olds) s (new :: news) s₂

end

/-! ## One answer -/

/-- An option is known from the list of what it holds. -/
theorem toList_injective {α : Type} : Function.Injective (Option.toList : Option α → List α) :=
  Function.LeftInverse.injective fun _ => Option.head?_toList

mutual

/-- A call ends in one way only. -/
theorem Ends.unique {kind : EntityKind} {old new new' : Ref kind} {s s' s'' : Duplication} :
    Ends old s new s' → Ends old s new' s'' → new = new' ∧ s' = s''
  | .found hk hl, h' => by
    -- A copy is found or made, but not both, since making it needs that there is none. Only a call for a tree may fall under
    -- both cases: with a copy there it does nothing.
    cases h' with
    | found _ hl' => exact ⟨Option.some.inj (hl.symm.trans hl'), rfl⟩
    | tree =>
      have hfound : s.trees.lookup _ = some new := hl
      rw [tree_eq, hfound]
      exact ⟨rfl, rfl⟩
    | node => exact absurd rfl hk
    | source hnone | group hnone | groupJoin hnone | keyJoin hnone | hashTable hnone | bloomFilter hnone =>
      cases hl.symm.trans hnone
  | .tree _ _, h' => by
    cases h' with
    | found _ hl' =>
      have hfound : s.trees.lookup old = some new' := hl'
      rw [tree_eq, hfound]
      exact ⟨rfl, rfl⟩
    | tree => exact ⟨rfl, rfl⟩
  | .node _ _, h' => by
    cases h' with
    | found hk => exact absurd rfl hk
    | node => exact ⟨rfl, rfl⟩
  | .source hnone hx hn hg hj, h' => by
    cases h' with
    | found _ hl => cases hl.symm.trans hnone
    | source _ hx' hn' hg' hj' =>
      cases hx.symm.trans hx'
      obtain ⟨rfl, rfl⟩ := hn.unique hn'
      obtain ⟨hg, rfl⟩ := hg.unique hg'
      obtain ⟨hj, rfl⟩ := hj.unique hj'
      obtain rfl := toList_injective hg
      obtain rfl := toList_injective hj
      exact ⟨rfl, rfl⟩
  | .group hnone hx ht hj hm, h' => by
    cases h' with
    | found _ hl => cases hl.symm.trans hnone
    | group _ hx' ht' hj' hm' =>
      cases hx.symm.trans hx'
      obtain ⟨rfl, rfl⟩ := ht.unique ht'
      obtain ⟨rfl, rfl⟩ := hj.unique hj'
      obtain ⟨hm, rfl⟩ := hm.unique hm'
      obtain rfl := toList_injective hm
      exact ⟨rfl, rfl⟩
  | .groupJoin hnone hx hg hp hc, h' => by
    cases h' with
    | found _ hl => cases hl.symm.trans hnone
    | groupJoin _ hx' hg' hp' hc' =>
      cases hx.symm.trans hx'
      obtain ⟨rfl, rfl⟩ := hg.unique hg'
      obtain ⟨rfl, rfl⟩ := hp.unique hp'
      obtain ⟨rfl, rfl⟩ := hc.unique hc'
      exact ⟨rfl, rfl⟩
  | .keyJoin hnone hx hp hc, h' => by
    cases h' with
    | found _ hl => cases hl.symm.trans hnone
    | keyJoin _ hx' hp' hc' =>
      cases hx.symm.trans hx'
      obtain ⟨rfl, rfl⟩ := hp.unique hp'
      obtain ⟨rfl, rfl⟩ := hc.unique hc'
      exact ⟨rfl, rfl⟩
  | .hashTable hnone ht, h' => by
    cases h' with
    | found _ hl => cases hl.symm.trans hnone
    | hashTable _ ht' =>
      cases ht.symm.trans ht'
      exact ⟨rfl, rfl⟩
  | .bloomFilter hnone hf, h' => by
    cases h' with
    | found _ hl => cases hl.symm.trans hnone
    | bloomFilter _ hf' =>
      cases hf.symm.trans hf'
      exact ⟨rfl, rfl⟩

/-- Calls for several entities end in one way only. -/
theorem EndsAll.unique {kind : EntityKind} {olds news news' : List (Ref kind)} {s s' s'' : Duplication} :
    EndsAll olds s news s' → EndsAll olds s news' s'' → news = news' ∧ s' = s''
  | .nil, .nil => ⟨rfl, rfl⟩
  | .cons h hs, .cons h' hs' => by
    obtain ⟨rfl, rfl⟩ := h.unique h'
    obtain ⟨rfl, rfl⟩ := hs.unique hs'
    exact ⟨rfl, rfl⟩

end

/-! ## The calls with fuel -/

/-- An action is the call for an entity: where a property holds, the call ends as the action does. -/
def EndsAs (I : Duplication → Prop) (old : Ref kind) (action : Copying (Ref kind)) : Prop :=
  ∀ s, I s → Ends old s (action s).1 (action s).2

/-- Calls that end one by one, and keep what the next one needs, end one after the other. -/
theorem endsAll_mapM {I : Duplication → Prop} {f : Ref kind → Copying (Ref kind)}
    {answer : Ref kind → Duplication → Ref kind → Prop} {olds : List (Ref kind)} (hkeeps : ∀ r ∈ olds, Keeps I (f r) (answer r))
    (hends : ∀ r ∈ olds, EndsAs I r (f r)) (hs : I s) : EndsAll olds s (olds.mapM f s).1 (olds.mapM f s).2 := by
  induction olds generalizing s with
  | nil =>
    rw [List.mapM_nil]
    exact .nil
  | cons r olds ih =>
    rw [List.mapM_cons]
    obtain ⟨hs₁, -⟩ := hkeeps r List.mem_cons_self s hs
    exact .cons (hends r List.mem_cons_self s hs)
      (ih (fun r' hr' => hkeeps r' (List.mem_cons_of_mem r hr')) (fun r' hr' => hends r' (List.mem_cons_of_mem r hr')) hs₁)

/-- A call for an entity that there may be ends if the call for the entity does. -/
theorem endsAll_mapM_option {I : Duplication → Prop} {f : Ref kind → Copying (Ref kind)} {old : Option (Ref kind)}
    (hends : ∀ r ∈ old, EndsAs I r (f r)) (hs : I s) : EndsAll old.toList s (old.mapM f s).1.toList (old.mapM f s).2 := by
  cases old with
  | none => exact .nil
  | some r => exact .cons (hends r rfl s hs) .nil

/-- The calls with some fuel end. -/
structure CallsEnd (s₀ : Duplication) (input : Context) (fuel : Nat) : Prop where
  source : ∀ pending (old : SourceId), input.Has old → EndsAs (Fueled s₀ input fuel pending) old (sourceWith fuel old)
  group : ∀ pending (old : GroupId), input.Has old → EndsAs (Fueled s₀ input fuel pending) old (groupWith fuel old)
  groupJoin : ∀ pending (old : GroupJoinId), input.Has old → EndsAs (Fueled s₀ input fuel pending) old (groupJoinWith fuel old)

/-- A call for a source ends with one more step of fuel than the calls that it makes. -/
theorem CallsEnd.source_succ (hin : input.Closed) (ih : CallsEnd s₀ input fuel) {old : SourceId} (hold : input.Has old) :
    EndsAs (Fueled s₀ input (fuel + 1) pending) old (sourceWith (fuel + 1) old) := by
  intro s hs
  rw [sourceWith_succ]
  cases hl : s.sources.lookup old with
  | some new => exact .found (by simp) hl
  | none =>
    obtain ⟨x, hx⟩ := Context.exists_record? (hs.1.has_of_input hold)
    have hget : s.ctx.sources.get old = x := Arena.get_of_get? _ hx
    have hrefs := hs.1.input_has hin hold hx
    simp only [EntityKind.references, EntityKind.bare, List.forall_mem_cons, List.forall_mem_append, List.forall_mem_map,
      Option.mem_toList] at hrefs
    obtain ⟨hnode, hgroup, hjoin⟩ := hrefs
    have hkeep := callsKeep s₀ hin fuel
    have henter := hs.enter (by simp) (by simp) (by simp) hold (not_mem_keys_of_lookup hl) hx
    obtain ⟨h₁, -⟩ := (keeps_node hin hnode).fueled _ henter
    obtain ⟨h₂, -⟩ := Keeps.mapM_option (fun g hg => hkeep.group _ g (hgroup g hg)) _ h₁
    dsimp only
    rw [hget]
    exact .source hl hx (.node _ _) (endsAll_mapM_option (fun g hg => ih.group _ g (hgroup g hg)) h₁)
      (endsAll_mapM_option (fun j hj => ih.groupJoin _ j (hjoin j hj)) h₂)

theorem CallsEnd.group_succ (hin : input.Closed) (ih : CallsEnd s₀ input fuel) {old : GroupId} (hold : input.Has old) :
    EndsAs (Fueled s₀ input (fuel + 1) pending) old (groupWith (fuel + 1) old) := by
  intro s hs
  rw [groupWith_succ]
  cases hl : s.groups.lookup old with
  | some new => exact .found (by simp) hl
  | none =>
    obtain ⟨g, hg⟩ := Context.exists_record? (hs.1.has_of_input hold)
    have hget : s.ctx.groups.get old = g := Arena.get_of_get? _ hg
    have hrefs := hs.1.input_has hin hold hg
    simp only [EntityKind.references, EntityKind.bare, List.forall_mem_append, List.forall_mem_map, Option.mem_toList] at hrefs
    obtain ⟨⟨htables, hjoins⟩, hmerged⟩ := hrefs
    have hkeep := callsKeep s₀ hin fuel
    have henter := hs.enter (by simp) (by simp) (by simp) hold (not_mem_keys_of_lookup hl) hg
    have hlater : ∀ {kind : EntityKind} (s s' : Duplication) (a b : Ref kind), s.Extends s' → s.Copies a b → s'.Copies a b :=
      fun _ _ _ _ hext => hext.copies
    have hkeepTables := fun t (ht : t ∈ g.tables) => hkeep.source (⟨.group, (s.ctx.insert .group g).1⟩ :: pending) t (htables t ht)
    have hkeepJoins := fun j (hj : j ∈ g.joins) => hkeep.groupJoin (⟨.group, (s.ctx.insert .group g).1⟩ :: pending) j (hjoins j hj)
    obtain ⟨h₁, -⟩ := Keeps.mapM hlater hkeepTables _ henter
    obtain ⟨h₂, -⟩ := Keeps.mapM hlater hkeepJoins _ h₁
    dsimp only
    rw [hget]
    exact .group hl hg (endsAll_mapM hkeepTables (fun t ht => ih.source _ t (htables t ht)) henter)
      (endsAll_mapM hkeepJoins (fun j hj => ih.groupJoin _ j (hjoins j hj)) h₁)
      (endsAll_mapM_option (fun m hm => ih.group _ m (hmerged m hm)) h₂)

theorem CallsEnd.groupJoin_succ (hin : input.Closed) (ih : CallsEnd s₀ input fuel) {old : GroupJoinId} (hold : input.Has old) :
    EndsAs (Fueled s₀ input (fuel + 1) pending) old (groupJoinWith (fuel + 1) old) := by
  intro s hs
  rw [groupJoinWith_succ]
  cases hl : s.groupJoins.lookup old with
  | some new => exact .found (by simp) hl
  | none =>
    obtain ⟨j, hj⟩ := Context.exists_record? (hs.1.has_of_input hold)
    have hget : s.ctx.groupJoins.get old = j := Arena.get_of_get? _ hj
    have hrefs := hs.1.input_has hin hold hj
    simp only [EntityKind.references, EntityKind.bare, List.forall_mem_cons] at hrefs
    obtain ⟨hgroup, hparent, hchild, -⟩ := hrefs
    have hkeep := callsKeep s₀ hin fuel
    have henter := hs.enter (by simp) (by simp) (by simp) hold (not_mem_keys_of_lookup hl) hj
    obtain ⟨h₁, -⟩ := hkeep.group _ j.group hgroup _ henter
    obtain ⟨h₂, -⟩ := hkeep.source _ j.parent hparent _ h₁
    dsimp only
    rw [hget]
    exact .groupJoin hl hj (ih.group _ j.group hgroup _ henter) (ih.source _ j.parent hparent _ h₁)
      (ih.source _ j.child hchild _ h₂)

/-- Calls of every fuel end where the fuel is enough for the entities without a copy. -/
theorem callsEnd (s₀ : Duplication) (hin : input.Closed) (fuel : Nat) : CallsEnd s₀ input fuel := by
  induction fuel with
  | zero =>
    refine ⟨?_, ?_, ?_⟩ <;>
    · intro pending old _ s hs
      exact absurd rfl hs.fuel_ne_zero
  | succ fuel ih =>
    refine ⟨?_, ?_, ?_⟩
    · intro pending old hold
      exact ih.source_succ hin hold
    · intro pending old hold
      exact ih.group_succ hin hold
    · intro pending old hold
      exact ih.groupJoin_succ hin hold

/-- A call for a source ends: a session has fuel for each of its entities. -/
theorem ends_source (hin : input.Closed) {old : SourceId} (hold : input.Has old) :
    EndsAs (InSession s₀ input pending) old (source old) := by
  intro s h
  rw [source_eq]
  exact (callsEnd s₀ hin s.fuel).source pending old hold s h.fueled

/-- A call for a join along a foreign key ends with the calls for its sources and conditions. -/
theorem ends_keyJoin (hin : input.Closed) {old : KeyJoinId} (hold : input.Has old) :
    EndsAs (InSession s₀ input pending) old (keyJoin old) := by
  intro s h
  rw [keyJoin_eq]
  cases hl : s.keyJoins.lookup old with
  | some new => exact .found (by simp) hl
  | none =>
    obtain ⟨j, hj⟩ := Context.exists_record? (h.has_of_input hold)
    have hget : s.ctx.keyJoins.get old = j := Arena.get_of_get? _ hj
    have hrefs := h.input_has hin hold hj
    simp only [EntityKind.references, EntityKind.bare, List.forall_mem_cons] at hrefs
    obtain ⟨hparent, hchild, -⟩ := hrefs
    have henter := h.enter (by simp) (by simp) hold (not_mem_keys_of_lookup hl) hj
    obtain ⟨h₁, -⟩ := keeps_source hin hparent _ henter
    dsimp only
    rw [hget]
    exact .keyJoin hl hj (ends_source hin hparent _ henter) (ends_source hin hchild _ h₁)

/-- Every call for an entity that was there when the call began ends. -/
theorem ends_entity (hin : input.Closed) {r : Ref kind} (hr : input.Has r) :
    EndsAs (InSession s₀ input pending) r (entity kind r) := by
  intro s h
  cases kind with
  | tree => exact .tree r s
  | node => exact .node r s
  | source => exact ends_source hin hr s h
  | group => exact (callsEnd s₀ hin s.fuel).group pending r hr s h.fueled
  | groupJoin => exact (callsEnd s₀ hin s.fuel).groupJoin pending r hr s h.fueled
  | keyJoin => exact ends_keyJoin hin hr s h
  | hashTable =>
    rw [entity, hashTable_eq]
    cases hl : s.hashTables.lookup r with
    | some new => exact .found (by simp) hl
    | none =>
      obtain ⟨t, ht⟩ := Context.exists_record? (h.has_of_input hr)
      have hget : s.ctx.hashTables.get r = t := Arena.get_of_get? _ ht
      rw [hget]
      exact .hashTable hl ht
  | bloomFilter =>
    rw [entity, bloomFilter_eq]
    cases hl : s.bloomFilters.lookup r with
    | some new => exact .found (by simp) hl
    | none =>
      obtain ⟨f, hf⟩ := Context.exists_record? (h.has_of_input hr)
      have hget : s.ctx.bloomFilters.get r = f := Arena.get_of_get? _ hf
      rw [hget]
      exact .bloomFilter hl hf

end ClusterPlan.Duplication
