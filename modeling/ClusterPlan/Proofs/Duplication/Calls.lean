import ClusterPlan.Proofs.Duplication.Keeps

/-!
# The calls of a session

The calls for sources, groups and group joins call each other. The fuel is enough, because each of them enters an entity that
has no copy yet and that was there when the outermost call began. So all calls keep what holds during a session, and each of
them gives a copy of the entity that it was asked to copy.
-/

namespace ClusterPlan.Duplication

variable {kind : EntityKind} {s₀ s s' : Duplication} {input : Context} {pending : List AnyRef} {α : Type}

/-! ## Sources, groups and group joins -/

/-- The entities of a context that take fuel. -/
def total (ctx : Context) : Nat := ctx.sources.size + ctx.groups.size + ctx.groupJoins.size

/-- The entities with a copy that take fuel. -/
def entered (s : Duplication) : Nat := s.sources.length + s.groups.length + s.groupJoins.length

/-- Only entities that were there when the call began have a copy. -/
theorem Additive.entered_le (h : Additive s₀ input s) : s.entered ≤ total input :=
  Nat.add_le_add (Nat.add_le_add (h.table .source).length_le (h.table .group).length_le) (h.table .groupJoin).length_le

/-- The later the state of a session, the more entities have a copy. -/
theorem Additive.entered_mono (h : Additive s₀ input s) (hext : s.Extends s') : s.entered ≤ s'.entered := by
  have hlength : ∀ kind, (s.entries kind).length ≤ (s'.entries kind).length := fun kind =>
    (List.subperm_of_subset (h.table kind).originals.of_map (hext.entries kind)).length_le
  exact Nat.add_le_add (Nat.add_le_add (hlength .source) (hlength .group)) (hlength .groupJoin)

/-- What holds during a session, with fuel for all entities that have no copy yet. -/
def Fueled (s₀ : Duplication) (input : Context) (fuel : Nat) (pending : List AnyRef) (s : Duplication) : Prop :=
  InSession s₀ input pending s ∧ total input < fuel + s.entered

variable {fuel : Nat}

/-- An action that needs no fuel keeps the promise about the fuel: it only adds copies. -/
theorem Keeps.fueled {action : Copying α} {answer : Duplication → α → Prop}
    (h : Keeps (InSession s₀ input pending) action answer) : Keeps (Fueled s₀ input fuel pending) action answer := by
  intro s hs
  obtain ⟨h₁, hext, ha⟩ := h s hs.1
  have hle := hs.1.entered_mono hext
  have hlt := hs.2
  exact ⟨⟨h₁, by omega⟩, hext, ha⟩

/-- The fuel does not run out. -/
theorem Fueled.fuel_ne_zero (h : Fueled s₀ input fuel pending s) : fuel ≠ 0 := by
  have hle := h.1.entered_le
  have hlt := h.2
  omega

/-- A call for a source with fuel left: look it up, or enter a copy and fill it in. -/
theorem sourceWith_succ (fuel : Nat) (old : SourceId) (s : Duplication) :
    sourceWith (fuel + 1) old s = match s.sources.lookup old with
      | some new => (new, s)
      | none =>
        let x := s.ctx.sources.get old
        let new := (s.ctx.insert .source x).1
        let (n, s) := node x.node (s.enter .source old x)
        let (group, s) := x.group.mapM (groupWith fuel) s
        let (parentJoin, s) := x.parentJoin.mapM (groupJoinWith fuel) s
        (new, (s.change new fun _ => { x with node := n, group, parentJoin }).change n (·.addUse new)) := by
  rw [sourceWith]
  simp only [bind, StateT.bind, get, getThe, MonadStateOf.get, StateT.get, pure]
  cases s.sources.lookup old <;> rfl

theorem groupWith_succ (fuel : Nat) (old : GroupId) (s : Duplication) :
    groupWith (fuel + 1) old s = match s.groups.lookup old with
      | some new => (new, s)
      | none =>
        let g := s.ctx.groups.get old
        let new := (s.ctx.insert .group g).1
        let (tables, s) := g.tables.mapM (sourceWith fuel) (s.enter .group old g)
        let (joins, s) := g.joins.mapM (groupJoinWith fuel) s
        let (mergedInto, s) := g.mergedInto.mapM (groupWith fuel) s
        (new, s.change new fun _ => { tables, joins, mergedInto }) := by
  rw [groupWith]
  simp only [bind, StateT.bind, get, getThe, MonadStateOf.get, StateT.get, pure]
  cases s.groups.lookup old <;> rfl

theorem groupJoinWith_succ (fuel : Nat) (old : GroupJoinId) (s : Duplication) :
    groupJoinWith (fuel + 1) old s = match s.groupJoins.lookup old with
      | some new => (new, s)
      | none =>
        let j := s.ctx.groupJoins.get old
        let new := (s.ctx.insert .groupJoin j).1
        let (group, s) := groupWith fuel j.group (s.enter .groupJoin old j)
        let (parent, s) := sourceWith fuel j.parent s
        let (child, s) := sourceWith fuel j.child s
        let (conditions, s) := j.conditions.mapM condition s
        (new, (s.register conditions new).change new fun _ => { j with group, parent, child, conditions }) := by
  rw [groupJoinWith]
  simp only [bind, StateT.bind, get, getThe, MonadStateOf.get, StateT.get, pure]
  cases s.groupJoins.lookup old <;> rfl

/-- The calls with some fuel keep what holds during a session and give copies. -/
structure CallsKeep (s₀ : Duplication) (input : Context) (fuel : Nat) : Prop where
  source : ∀ pending (old : SourceId), input.Has old →
    Keeps (Fueled s₀ input fuel pending) (sourceWith fuel old) fun s new => s.Copies old new
  group : ∀ pending (old : GroupId), input.Has old →
    Keeps (Fueled s₀ input fuel pending) (groupWith fuel old) fun s new => s.Copies old new
  groupJoin : ∀ pending (old : GroupJoinId), input.Has old →
    Keeps (Fueled s₀ input fuel pending) (groupJoinWith fuel old) fun s new => s.Copies old new

/-- What is no node has its record in later states, too. -/
theorem Extends.record? (hext : s.Extends s') (hn : kind ≠ .node) {r : Ref kind} {x : kind.Record}
    (hx : s.ctx.record? r = some x) : s'.ctx.record? r = some x := by
  obtain ⟨y, hy, hbare⟩ := hext.kept r x hx
  rw [bare_of_ne hn, bare_of_ne hn] at hbare
  rw [hy, hbare]

/-- Entering an entity takes one step of the fuel. -/
theorem Fueled.enter (h : Fueled s₀ input (fuel + 1) pending s) (ht : kind ≠ .tree) (hn : kind ≠ .node)
    (hk : kind = .source ∨ kind = .group ∨ kind = .groupJoin) {old : Ref kind} {x : kind.Record} (hold : input.Has old)
    (hnew : old ∉ (s.entries kind).map (·.1)) (hx : s.ctx.record? old = some x) :
    Fueled s₀ input fuel (⟨kind, (s.ctx.insert kind x).1⟩ :: pending) (s.enter kind old x) := by
  refine ⟨h.1.enter ht hn hold hnew hx, ?_⟩
  have hlt := h.2
  have hentered : (s.enter kind old x).entered = s.entered + 1 := by
    rcases hk with rfl | rfl | rfl <;> simp only [entered, Duplication.enter, note, List.length_cons] <;> omega
  omega

/-- The fuel that was enough when a call began is enough when it ends. -/
theorem Fueled.of_extends (h : Fueled s₀ input fuel pending s) (hext : s.Extends s') (h' : InSession s₀ input pending s') :
    Fueled s₀ input fuel pending s' := by
  refine ⟨h', ?_⟩
  have hle := h.1.entered_mono hext
  have hlt := h.2
  omega

/-- The end of a call for an entity other than a source. -/
theorem Fueled.finish {s₁ : Duplication} (h : Fueled s₀ input fuel pending s) {old new : Ref kind} {x y : kind.Record}
    (h₁ : InSession s₀ input (⟨kind, new⟩ :: pending) s₁) (hext : s.Extends s₁) (hnew : ¬s.ctx.Has new) (ht : kind ≠ .tree)
    (hn : kind ≠ .node) (hs : kind ≠ .source) (hc : s₁.Copies old new) (hx : s.ctx.record? old = some x)
    (hf : s₁.Faithful kind x y) :
    Fueled s₀ input fuel pending (s₁.change new fun _ => y) ∧ s.Extends (s₁.change new fun _ => y) ∧
      (s₁.change new fun _ => y).Copies old new := by
  have hlater := hext.change ht hnew fun _ => y
  exact ⟨h.of_extends hlater (h₁.finish ht hn hs hc (hext.record? hn hx) hf), hlater, (copies_change s₁ new _ ht).2 hc⟩

/-- The end of a call for a source. -/
theorem Fueled.finishSource {s₁ : Duplication} (h : Fueled s₀ input fuel pending s) {old new : SourceId} {x y : TableSource}
    (h₁ : InSession s₀ input ((⟨.source, new⟩ : AnyRef) :: pending) s₁) (hext : s.Extends s₁) (hnew : ¬s.ctx.Has new)
    (hc : s₁.Copies old new) (hx : s.ctx.record? old = some x) (hf : s₁.Faithful .source x y) :
    Fueled s₀ input fuel pending ((s₁.change new fun _ => y).change y.node (·.addUse new)) ∧
      s.Extends ((s₁.change new fun _ => y).change y.node (·.addUse new)) ∧
      ((s₁.change new fun _ => y).change y.node (·.addUse new)).Copies old new := by
  have hlater := (hext.change (by simp) hnew fun _ => y).trans (extends_addUse _ y.node new)
  refine ⟨h.of_extends hlater (h₁.finishSource hc (hext.record? (by simp) hx) hf), hlater, ?_⟩
  rw [copies_change _ y.node _ (by simp), copies_change s₁ new _ (by simp)]
  exact hc

/-- With calls of less fuel for what the source refers to, the call for the source keeps the session in order. -/
theorem CallsKeep.source_succ (hin : input.Closed) (ih : CallsKeep s₀ input fuel) {old : SourceId} (hold : input.Has old) :
    Keeps (Fueled s₀ input (fuel + 1) pending) (sourceWith (fuel + 1) old) fun s new => s.Copies old new := by
  intro s hs
  rw [sourceWith_succ]
  cases hl : s.sources.lookup old with
  | some new => exact ⟨hs, .refl s, mem_of_lookup hl⟩
  | none =>
    obtain ⟨x, hx⟩ := Context.exists_record? (hs.1.has_of_input hold)
    have hget : s.ctx.sources.get old = x := Arena.get_of_get? _ hx
    have hrefs := hs.1.input_has hin hold hx
    simp only [EntityKind.references, EntityKind.bare, List.forall_mem_cons, List.forall_mem_append, List.forall_mem_map,
      Option.mem_toList] at hrefs
    obtain ⟨hnode, hgroup, hjoin⟩ := hrefs
    have henter := hs.enter (by simp) (by simp) (by simp) hold (not_mem_keys_of_lookup hl) hx
    obtain ⟨h₁, hext₁, hn⟩ := (keeps_node hin hnode).fueled _ henter
    obtain ⟨h₂, hext₂, hg⟩ := Keeps.mapM_option (fun g hg => ih.group _ g (hgroup g hg)) _ h₁
    obtain ⟨h₃, hext₃, hj⟩ := Keeps.mapM_option (fun j hj => ih.groupJoin _ j (hjoin j hj)) _ h₂
    dsimp only
    rw [hget]
    have hext := (hext₁.trans hext₂).trans hext₃
    refine hs.finishSource h₃.1 ((extends_enter s old x (by simp) (by simp)).trans hext) (not_has_insert_self s.ctx x)
      (hext.copies (copies_enter_self s old x (by simp) (by simp))) hx
      ⟨(hext₂.trans hext₃).copies hn, rfl, rfl, optionRel_imp (fun _ _ hc => hext₃.copies hc) hg, hj⟩

/-- With calls of less fuel for its sources and joins, the call for a group keeps the session in order. -/
theorem CallsKeep.group_succ (hin : input.Closed) (ih : CallsKeep s₀ input fuel) {old : GroupId} (hold : input.Has old) :
    Keeps (Fueled s₀ input (fuel + 1) pending) (groupWith (fuel + 1) old) fun s new => s.Copies old new := by
  intro s hs
  rw [groupWith_succ]
  cases hl : s.groups.lookup old with
  | some new => exact ⟨hs, .refl s, mem_of_lookup hl⟩
  | none =>
    obtain ⟨g, hg⟩ := Context.exists_record? (hs.1.has_of_input hold)
    have hget : s.ctx.groups.get old = g := Arena.get_of_get? _ hg
    have hrefs := hs.1.input_has hin hold hg
    simp only [EntityKind.references, EntityKind.bare, List.forall_mem_append, List.forall_mem_map, Option.mem_toList] at hrefs
    obtain ⟨⟨htables, hjoins⟩, hmerged⟩ := hrefs
    have henter := hs.enter (by simp) (by simp) (by simp) hold (not_mem_keys_of_lookup hl) hg
    have hlater : ∀ {kind : EntityKind} (s s' : Duplication) (a b : Ref kind), s.Extends s' → s.Copies a b → s'.Copies a b :=
      fun _ _ _ _ hext => hext.copies
    obtain ⟨h₁, hext₁, ht⟩ := Keeps.mapM hlater (fun t ht => ih.source _ t (htables t ht)) _ henter
    obtain ⟨h₂, hext₂, hj⟩ := Keeps.mapM hlater (fun j hj => ih.groupJoin _ j (hjoins j hj)) _ h₁
    obtain ⟨h₃, hext₃, hm⟩ := Keeps.mapM_option (fun m hm => ih.group _ m (hmerged m hm)) _ h₂
    dsimp only
    rw [hget]
    have hext := (hext₁.trans hext₂).trans hext₃
    refine hs.finish h₃.1 ((extends_enter s old g (by simp) (by simp)).trans hext) (not_has_insert_self s.ctx g) (by simp)
      (by simp) (by simp) (hext.copies (copies_enter_self s old g (by simp) (by simp))) hg
      ⟨ht.imp fun _ _ hc => (hext₂.trans hext₃).copies hc, hj.imp fun _ _ hc => hext₃.copies hc, hm⟩

/-- With calls of less fuel for its group and sources, the call for a join keeps the session in order. -/
theorem CallsKeep.groupJoin_succ (hin : input.Closed) (ih : CallsKeep s₀ input fuel) {old : GroupJoinId}
    (hold : input.Has old) :
    Keeps (Fueled s₀ input (fuel + 1) pending) (groupJoinWith (fuel + 1) old) fun s new => s.Copies old new := by
  intro s hs
  rw [groupJoinWith_succ]
  cases hl : s.groupJoins.lookup old with
  | some new => exact ⟨hs, .refl s, mem_of_lookup hl⟩
  | none =>
    obtain ⟨j, hj⟩ := Context.exists_record? (hs.1.has_of_input hold)
    have hget : s.ctx.groupJoins.get old = j := Arena.get_of_get? _ hj
    have hrefs := hs.1.input_has hin hold hj
    simp only [EntityKind.references, EntityKind.bare, List.forall_mem_cons] at hrefs
    obtain ⟨hgroup, hparent, hchild, -⟩ := hrefs
    have henter := hs.enter (by simp) (by simp) (by simp) hold (not_mem_keys_of_lookup hl) hj
    obtain ⟨h₁, hext₁, hg⟩ := ih.group _ j.group hgroup _ henter
    obtain ⟨h₂, hext₂, hp⟩ := ih.source _ j.parent hparent _ h₁
    obtain ⟨h₃, hext₃, hc⟩ := ih.source _ j.child hchild _ h₂
    obtain ⟨h₄, hext₄, hconds⟩ := (keeps_conditions j.conditions).fueled _ h₃
    dsimp only
    rw [hget]
    obtain ⟨h₅, hext₅⟩ := h₄.1.register hconds (s.ctx.insert .groupJoin j).1
    have hext := ((hext₁.trans hext₂).trans hext₃).trans (hext₄.trans hext₅)
    refine hs.finish h₅ ((extends_enter s old j (by simp) (by simp)).trans hext)
      (not_has_insert_self s.ctx j) (by simp) (by simp) (by simp)
      (hext.copies (copies_enter_self s old j (by simp) (by simp))) hj
      ⟨((hext₂.trans hext₃).trans (hext₄.trans hext₅)).copies hg, (hext₃.trans (hext₄.trans hext₅)).copies hp,
        (hext₄.trans hext₅).copies hc, hconds.imp fun _ _ hc => hext₅.copiesCondition hc, rfl, rfl⟩

/-- Calls of every fuel keep the session in order. -/
theorem callsKeep (s₀ : Duplication) (hin : input.Closed) (fuel : Nat) : CallsKeep s₀ input fuel := by
  induction fuel with
  | zero =>
    refine ⟨?_, ?_, ?_⟩ <;>
    · intro pending old _ s hs
      exact absurd rfl hs.fuel_ne_zero
  | succ fuel ih =>
    refine ⟨?_, ?_, ?_⟩
    · intro pending old hold
      exact ih.source_succ hin hold
    · intro pending old hold
      exact ih.group_succ hin hold
    · intro pending old hold
      exact ih.groupJoin_succ hin hold

/-! ## The calls without fuel -/

/-- The fuel that a call starts with is enough. -/
theorem InSession.fueled (h : InSession s₀ input pending s) : Fueled s₀ input s.fuel pending s := by
  refine ⟨h, ?_⟩
  have hsource : input.sources.size ≤ s.ctx.sources.size := h.kept.size_le .source
  have hgroup : input.groups.size ≤ s.ctx.groups.size := h.kept.size_le .group
  have hjoin : input.groupJoins.size ≤ s.ctx.groupJoins.size := h.kept.size_le .groupJoin
  simp only [total, fuel]
  omega

theorem get_bind (f : Duplication → Copying α) (s : Duplication) : (get >>= f) s = f s s := rfl

/-- A call for a source starts with as much fuel as the session has. -/
theorem source_eq (old : SourceId) (s : Duplication) : source old s = sourceWith s.fuel old s :=
  get_bind (fun s => sourceWith s.fuel old) s

/-- A call for a source keeps the session in order and answers with the copy. -/
theorem keeps_source (hin : input.Closed) {old : SourceId} (hold : input.Has old) :
    Keeps (InSession s₀ input pending) (source old) fun s new => s.Copies old new := by
  intro s h
  rw [source_eq]
  obtain ⟨h₁, hext, hc⟩ := (callsKeep s₀ hin s.fuel).source pending old hold s h.fueled
  exact ⟨h₁.1, hext, hc⟩

/-- A call for a group keeps the session in order and answers with the copy. -/
theorem keeps_group (hin : input.Closed) {old : GroupId} (hold : input.Has old) :
    Keeps (InSession s₀ input pending) (group old) fun s new => s.Copies old new := by
  intro s h
  obtain ⟨h₁, hext, hc⟩ := (callsKeep s₀ hin s.fuel).group pending old hold s h.fueled
  exact ⟨h₁.1, hext, hc⟩

theorem keeps_groupJoin (hin : input.Closed) {old : GroupJoinId} (hold : input.Has old) :
    Keeps (InSession s₀ input pending) (groupJoin old) fun s new => s.Copies old new := by
  intro s h
  obtain ⟨h₁, hext, hc⟩ := (callsKeep s₀ hin s.fuel).groupJoin pending old hold s h.fueled
  exact ⟨h₁.1, hext, hc⟩

/-- A join along a foreign key is looked up, or copied with its sources and conditions. -/
theorem keyJoin_eq (old : KeyJoinId) (s : Duplication) :
    keyJoin old s = match s.keyJoins.lookup old with
      | some new => (new, s)
      | none =>
        let j := s.ctx.keyJoins.get old
        let new := (s.ctx.insert .keyJoin j).1
        let (parent, s) := source j.parent (s.enter .keyJoin old j)
        let (child, s) := source j.child s
        let (conditions, s) := j.conditions.mapM condition s
        (new, s.change new fun _ => { j with parent, child, conditions }) := by
  unfold keyJoin
  simp only [bind, StateT.bind, get, getThe, MonadStateOf.get, StateT.get, pure]
  cases s.keyJoins.lookup old <;> rfl

theorem keeps_keyJoin (hin : input.Closed) {old : KeyJoinId} (hold : input.Has old) :
    Keeps (InSession s₀ input pending) (keyJoin old) fun s new => s.Copies old new := by
  intro s h
  rw [keyJoin_eq]
  cases hl : s.keyJoins.lookup old with
  | some new => exact ⟨h, .refl s, mem_of_lookup hl⟩
  | none =>
    obtain ⟨j, hj⟩ := Context.exists_record? (h.has_of_input hold)
    have hget : s.ctx.keyJoins.get old = j := Arena.get_of_get? _ hj
    have hrefs := h.input_has hin hold hj
    simp only [EntityKind.references, EntityKind.bare, List.forall_mem_cons] at hrefs
    obtain ⟨hparent, hchild, -⟩ := hrefs
    have henter := h.enter (by simp) (by simp) hold (not_mem_keys_of_lookup hl) hj
    obtain ⟨h₁, hext₁, hp⟩ := keeps_source hin hparent _ henter
    obtain ⟨h₂, hext₂, hc⟩ := keeps_source hin hchild _ h₁
    obtain ⟨h₃, hext₃, hconds⟩ := keeps_conditions j.conditions _ h₂
    dsimp only
    rw [hget]
    have hext := (hext₁.trans hext₂).trans hext₃
    refine And.imp_left And.left (h.fueled.finish h₃ ((extends_enter s old j (by simp) (by simp)).trans hext)
      (not_has_insert_self s.ctx j) (by simp) (by simp) (by simp)
      (hext.copies (copies_enter_self s old j (by simp) (by simp))) hj
      ⟨(hext₂.trans hext₃).copies hp, hext₃.copies hc, hconds, rfl⟩)

theorem hashTable_eq (old : HashTableId) (s : Duplication) :
    hashTable old s = match s.hashTables.lookup old with
      | some new => (new, s)
      | none => ((s.ctx.insert .hashTable (s.ctx.hashTables.get old)).1, s.enter .hashTable old (s.ctx.hashTables.get old)) := by
  unfold hashTable
  simp only [bind, StateT.bind, get, getThe, MonadStateOf.get, StateT.get, pure]
  cases s.hashTables.lookup old <;> rfl

theorem bloomFilter_eq (old : BloomFilterId) (s : Duplication) :
    bloomFilter old s = match s.bloomFilters.lookup old with
      | some new => (new, s)
      | none =>
        ((s.ctx.insert .bloomFilter (s.ctx.bloomFilters.get old)).1, s.enter .bloomFilter old (s.ctx.bloomFilters.get old)) := by
  unfold bloomFilter
  simp only [bind, StateT.bind, get, getThe, MonadStateOf.get, StateT.get, pure]
  cases s.bloomFilters.lookup old <;> rfl

/-- An entity that refers to nothing is finished when it is entered. -/
theorem InSession.enterWhole (h : InSession s₀ input pending s) (hk : kind = .hashTable ∨ kind = .bloomFilter)
    {old : Ref kind} {x : kind.Record} (hold : input.Has old) (hnew : old ∉ (s.entries kind).map (·.1))
    (hx : s.ctx.record? old = some x) : InSession s₀ input pending (s.enter kind old x) := by
  have ht : kind ≠ .tree := by rcases hk with rfl | rfl <;> simp
  have hn : kind ≠ .node := by rcases hk with rfl | rfl <;> simp
  have hs : kind ≠ .source := by rcases hk with rfl | rfl <;> simp
  have hentered := h.enter ht hn hold hnew hx
  have hext := extends_enter s old x ht hn
  refine ⟨hentered.toAdditive, h.pendingNodup, ?_, ?_, ?_⟩
  · intro ref href
    exact hentered.pendingNew ref (List.mem_cons_of_mem _ href)
  · intro kind' a b hab hpend
    by_cases heq : (⟨kind', b⟩ : AnyRef) = ⟨kind, (s.ctx.insert kind x).1⟩
    · cases heq
      have ha := hentered.original_unique hab (copies_enter_self s old x ht hn)
      subst ha
      refine ⟨x, x, hext.record? hn hx, Context.record?_insert_self _ _, ?_⟩
      rcases hk with rfl | rfl <;> rfl
    · exact hentered.faithful a b hab (by simp [heq, hpend])
  · intro a b y hab hy
    have huses := hentered.uses a b y hab hy
    simp only [List.mem_cons, not_or, Sigma.mk.injEq, hs.symm, false_and, not_false_eq_true, true_and] at huses
    exact huses

theorem keeps_hashTable {old : HashTableId} (hold : input.Has old) :
    Keeps (InSession s₀ input pending) (hashTable old) fun s new => s.Copies old new := by
  intro s h
  rw [hashTable_eq]
  cases hl : s.hashTables.lookup old with
  | some new => exact ⟨h, .refl s, mem_of_lookup hl⟩
  | none =>
    obtain ⟨t, ht⟩ := Context.exists_record? (h.has_of_input hold)
    have hget : s.ctx.hashTables.get old = t := Arena.get_of_get? _ ht
    dsimp only
    rw [hget]
    exact ⟨h.enterWhole (Or.inl rfl) hold (not_mem_keys_of_lookup hl) ht, extends_enter s old t (by simp) (by simp),
      copies_enter_self s old t (by simp) (by simp)⟩

theorem keeps_bloomFilter {old : BloomFilterId} (hold : input.Has old) :
    Keeps (InSession s₀ input pending) (bloomFilter old) fun s new => s.Copies old new := by
  intro s h
  rw [bloomFilter_eq]
  cases hl : s.bloomFilters.lookup old with
  | some new => exact ⟨h, .refl s, mem_of_lookup hl⟩
  | none =>
    obtain ⟨f, hf⟩ := Context.exists_record? (h.has_of_input hold)
    have hget : s.ctx.bloomFilters.get old = f := Arena.get_of_get? _ hf
    dsimp only
    rw [hget]
    exact ⟨h.enterWhole (Or.inr rfl) hold (not_mem_keys_of_lookup hl) hf, extends_enter s old f (by simp) (by simp),
      copies_enter_self s old f (by simp) (by simp)⟩

end ClusterPlan.Duplication
