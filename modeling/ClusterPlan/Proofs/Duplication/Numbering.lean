import ClusterPlan.Proofs.Duplication.Session

/-!
# The numbers of plan nodes

Only the calls for plan nodes and for columns give numbers to plan nodes; copies of entities and conditions leave them alone
(`Silent`). The number that stands for a plan node is unclaimed until the node itself is copied, whichever columns refer to it
before. So the first copy of a node gets the number that stands for it (`copyNumber_mem`).
-/

namespace ClusterPlan.Duplication

variable {kind : EntityKind} {ctx : Context} {supply : Supply} {s s' : Duplication} {α β : Type}

/-- The numbers of plan nodes, and those of them that copied nodes have. -/
def numbering (s : Duplication) : List (Int × Int) × List Int := (s.planNodes, s.used)

/-! ## Calls without plan nodes -/

/-- A later state of a session in which plan nodes have the same numbers. Others may be drawn. -/
def KeepsNumbers (s s' : Duplication) : Prop := s'.numbering = s.numbering ∧ s.supply.next ≤ s'.supply.next

theorem KeepsNumbers.refl (s : Duplication) : s.KeepsNumbers s := ⟨rfl, Int.le_refl _⟩

theorem KeepsNumbers.trans {s₁ s₂ s₃ : Duplication} (h : s₁.KeepsNumbers s₂) (h' : s₂.KeepsNumbers s₃) : s₁.KeepsNumbers s₃ :=
  ⟨h'.1.trans h.1, Int.le_trans h.2 h'.2⟩

/-- An action leaves the numbers of plan nodes alone. -/
def Silent (action : Copying α) : Prop := ∀ s : Duplication, s.KeepsNumbers (action s).2

/-- An answer that is ready leaves the numbers of plan nodes. -/
protected theorem Silent.pure (x : α) : Silent (pure x) := KeepsNumbers.refl

/-- Silent actions one after the other are silent. -/
protected theorem Silent.bind {action : Copying α} {next : α → Copying β} (h : Silent action) (h' : ∀ x, Silent (next x)) :
    Silent (action >>= next) :=
  fun s => (h s).trans (h' _ _)

/-- A silent action for each element of a list is silent. -/
theorem Silent.mapM {f : α → Copying β} (h : ∀ x, Silent (f x)) (xs : List α) : Silent (xs.mapM f) := by
  induction xs with
  | nil =>
    rw [List.mapM_nil]
    exact .pure []
  | cons x xs ih =>
    rw [List.mapM_cons]
    exact (h x).bind fun _ => ih.bind fun _ => .pure _

/-- A silent action for what there may be is silent. -/
theorem Silent.mapM_option {f : α → Copying β} (h : ∀ x, Silent (f x)) (x : Option α) : Silent (x.mapM f) := by
  cases x with
  | none => exact .pure none
  | some x => exact (h x).bind fun _ => .pure _

/-- Entering a copy numbers no plan node. -/
theorem keepsNumbers_enter (s : Duplication) (old : Ref kind) (x : kind.Record) : s.KeepsNumbers (s.enter kind old x) := by
  cases kind <;> exact .refl s

/-- Changing a record numbers no plan node. -/
theorem keepsNumbers_change (s : Duplication) (r : Ref kind) (f : kind.Record → kind.Record) : s.KeepsNumbers (s.change r f) :=
  .refl s

/-- Noting conditions for a join numbers no plan node. -/
theorem keepsNumbers_register (s : Duplication) (conditions : List ConditionId) (join : GroupJoinId) :
    s.KeepsNumbers (s.register conditions join) :=
  .refl s

/-- The call for a tree numbers no plan node. -/
theorem silent_tree (old : TreeId) : Silent (tree old) := by
  intro s
  rw [tree_eq]
  cases s.trees.lookup old <;> exact .refl s

/-- The call for a node of a tree numbers no plan node. -/
theorem silent_node (old : NodeId) : Silent (node old) := by
  intro s
  rw [node_eq]
  refine (silent_tree (s.ctx.nodes.get old).tree s).trans ?_
  dsimp only
  split
  · exact .refl _
  · split <;> exact .refl _

/-- The call for a condition draws a number, but not for a plan node. -/
theorem silent_condition (old : ConditionId) : Silent (condition old) := by
  intro s
  rw [condition_eq]
  cases s.conditions.lookup old with
  | some new => exact .refl s
  | none => exact ⟨rfl, Int.le_of_lt (Int.lt_succ _)⟩

/-- The calls with some fuel leave the numbers of plan nodes alone. -/
structure CallsSilent (fuel : Nat) : Prop where
  source : ∀ old, Silent (sourceWith fuel old)
  group : ∀ old, Silent (groupWith fuel old)
  groupJoin : ∀ old, Silent (groupJoinWith fuel old)

/-- The call for a source is silent if the calls of less fuel are. -/
theorem CallsSilent.source_succ {fuel : Nat} (ih : CallsSilent fuel) (old : SourceId) :
    Silent (sourceWith (fuel + 1) old) := by
  intro s
  rw [sourceWith_succ]
  cases s.sources.lookup old with
  | some new => exact .refl s
  | none =>
    let x := s.ctx.sources.get old
    have hnode := (keepsNumbers_enter s old x).trans (silent_node x.node _)
    have hgroup := hnode.trans (Silent.mapM_option ih.group x.group _)
    have hjoin := hgroup.trans (Silent.mapM_option ih.groupJoin x.parentJoin _)
    exact (hjoin.trans (keepsNumbers_change _ _ _)).trans (keepsNumbers_change _ _ _)

theorem CallsSilent.group_succ {fuel : Nat} (ih : CallsSilent fuel) (old : GroupId) : Silent (groupWith (fuel + 1) old) := by
  intro s
  rw [groupWith_succ]
  cases s.groups.lookup old with
  | some new => exact .refl s
  | none =>
    let g := s.ctx.groups.get old
    have htables := (keepsNumbers_enter s old g).trans (Silent.mapM ih.source g.tables _)
    have hjoins := htables.trans (Silent.mapM ih.groupJoin g.joins _)
    have hmerged := hjoins.trans (Silent.mapM_option ih.group g.mergedInto _)
    exact hmerged.trans (keepsNumbers_change _ _ _)

theorem CallsSilent.groupJoin_succ {fuel : Nat} (ih : CallsSilent fuel) (old : GroupJoinId) :
    Silent (groupJoinWith (fuel + 1) old) := by
  intro s
  rw [groupJoinWith_succ]
  cases s.groupJoins.lookup old with
  | some new => exact .refl s
  | none =>
    let j := s.ctx.groupJoins.get old
    have hgroup := (keepsNumbers_enter s old j).trans (ih.group j.group _)
    have hsources := (hgroup.trans (ih.source j.parent _)).trans (ih.source j.child _)
    have hconditions := hsources.trans (Silent.mapM silent_condition j.conditions _)
    exact (hconditions.trans (keepsNumbers_register _ _ _)).trans (keepsNumbers_change _ _ _)

/-- Calls of every fuel are silent. -/
theorem callsSilent (fuel : Nat) : CallsSilent fuel := by
  induction fuel with
  | zero => exact ⟨fun _ => .pure _, fun _ => .pure _, fun _ => .pure _⟩
  | succ fuel ih => exact ⟨ih.source_succ, ih.group_succ, ih.groupJoin_succ⟩

/-- The call for a source numbers no plan node. -/
theorem silent_source (old : SourceId) : Silent (source old) := by
  intro s
  rw [source_eq]
  exact (callsSilent s.fuel).source old s

theorem silent_keyJoin (old : KeyJoinId) : Silent (keyJoin old) := by
  intro s
  rw [keyJoin_eq]
  cases s.keyJoins.lookup old with
  | some new => exact .refl s
  | none =>
    let j := s.ctx.keyJoins.get old
    have hparent := (keepsNumbers_enter s old j).trans (silent_source j.parent _)
    have hsources := hparent.trans (silent_source j.child _)
    have hconditions := hsources.trans (Silent.mapM silent_condition j.conditions _)
    exact hconditions.trans (keepsNumbers_change _ _ _)

/-- A copy of an entity leaves the numbers of plan nodes alone. -/
theorem silent_entity (old : Ref kind) : Silent (entity kind old) := by
  intro s
  cases kind with
  | tree => exact silent_tree old s
  | node => exact silent_node old s
  | source => exact silent_source old s
  | group => exact (callsSilent s.fuel).group old s
  | groupJoin => exact (callsSilent s.fuel).groupJoin old s
  | keyJoin => exact silent_keyJoin old s
  | hashTable =>
    rw [entity, hashTable_eq]
    cases s.hashTables.lookup old <;> exact .refl s
  | bloomFilter =>
    rw [entity, bloomFilter_eq]
    cases s.bloomFilters.lookup old <;> exact .refl s

/-! ## The number that stands for a plan node -/

/-- No copied node has the number that stands for a plan node. -/
def Unclaimed (s : Duplication) (id : Int) : Prop := ∀ new, (id, new) ∈ s.planNodes → new ∉ s.used

/-- Whether a node is unclaimed depends on the numbers of plan nodes only. -/
theorem Unclaimed.of_numbering {id : Int} (h : s.Unclaimed id) (heq : s'.numbering = s.numbering) : s'.Unclaimed id := by
  simp only [numbering, Prod.mk.injEq] at heq
  obtain ⟨hnodes, hused⟩ := heq
  rw [Unclaimed, hnodes, hused]
  exact h

/-- The numbers that stand for plan nodes are different and were drawn, one for each id, and the numbers that copied nodes
claimed are among them. -/
structure Ledger (s : Duplication) : Prop where
  ids : (s.planNodes.map (·.1)).Nodup
  numbers : (s.planNodes.map (·.2)).Nodup
  drawn : ∀ n ∈ s.planNodes.map (·.2), n < s.supply.next
  used : ∀ n ∈ s.used, n ∈ s.planNodes.map (·.2)

/-- Numbers that are given properly make a proper ledger. -/
theorem Numbered.ledger {s₀ : Duplication} (h : Numbered s₀ s) : s.Ledger where
  ids := h.planNodes
  numbers := (List.nodup_append.1 h.distinct).1
  drawn n hn := (h.drawn n (List.mem_append_left _ hn)).2
  used := h.used

section Ledger

variable {id id' : Int}

/-- A column gets the number that stands for its node. -/
theorem mem_planNodes_nodeNumber (id : Int) (s : Duplication) : (id, (nodeNumber id s).1) ∈ (nodeNumber id s).2.planNodes := by
  rw [nodeNumber_eq]
  cases h : s.planNodes.lookup id with
  | some new => exact mem_of_lookup h
  | none => exact List.mem_cons_self

/-- A column claims nothing. -/
theorem unclaimed_nodeNumber (h : s.Unclaimed id) (hs : s.Ledger) (id' : Int) : (nodeNumber id' s).2.Unclaimed id := by
  rw [nodeNumber_eq]
  cases s.planNodes.lookup id' with
  | some new => exact h
  | none =>
    intro new hmem hused
    rcases List.mem_cons.1 hmem with heq | hmem
    · cases heq
      exact Int.lt_irrefl _ (hs.drawn _ (hs.used _ hused))
    · exact h new hmem hused

/-- A node claims no number but its own. -/
theorem unclaimed_copyNumber (h : (nodeNumber id' s).2.Unclaimed id) (hs : (nodeNumber id' s).2.Ledger)
    (hmem : (id', (nodeNumber id' s).1) ∈ (nodeNumber id' s).2.planNodes) (hne : id ≠ id') :
    (copyNumber id' s).2.Unclaimed id := by
  rw [copyNumber_eq]
  dsimp only
  split
  · exact h
  · intro new hnew hused
    rcases List.mem_cons.1 hused with rfl | hused
    · exact hne (key_unique hs.numbers hnew hmem)
    · exact h new hnew hused

/-- A node whose number is unclaimed gets it. -/
theorem copyNumber_mem (h : (nodeNumber id s).2.Unclaimed id)
    (hmem : (id, (nodeNumber id s).1) ∈ (nodeNumber id s).2.planNodes) :
    (id, (copyNumber id s).1) ∈ (copyNumber id s).2.planNodes := by
  rw [copyNumber_eq]
  dsimp only
  rw [if_neg (h _ hmem)]
  exact hmem

end Ledger

end ClusterPlan.Duplication
