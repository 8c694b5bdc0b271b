import ClusterPlan.Proofs.Duplication.Invariant

/-!
# The steps of a session

An entity is copied in two steps: its copy is entered with what the original holds, and when all that it refers to has been
copied, it gets its own references.
-/

namespace ClusterPlan.Duplication

variable {kind kind' : EntityKind} {s₀ s s' : Duplication} {input : Context} {pending : List AnyRef}

/-- The session with one more copy. -/
def note (s : Duplication) : (kind : EntityKind) → Ref kind → Ref kind → Duplication
  | .tree, old, new => { s with trees := (old, new) :: s.trees }
  | .node, old, new => { s with looseNodes := (old, new) :: s.looseNodes }
  | .source, old, new => { s with sources := (old, new) :: s.sources }
  | .group, old, new => { s with groups := (old, new) :: s.groups }
  | .groupJoin, old, new => { s with groupJoins := (old, new) :: s.groupJoins }
  | .keyJoin, old, new => { s with keyJoins := (old, new) :: s.keyJoins }
  | .hashTable, old, new => { s with hashTables := (old, new) :: s.hashTables }
  | .bloomFilter, old, new => { s with bloomFilters := (old, new) :: s.bloomFilters }

/-- An entity gets a copy that holds what it is given. -/
def enter (s : Duplication) (kind : EntityKind) (old : Ref kind) (x : kind.Record) : Duplication :=
  { s.note kind old (s.ctx.insert kind x).1 with ctx := (s.ctx.insert kind x).2 }

/-- An entity of the context changes. -/
def change (s : Duplication) (r : Ref kind) (f : kind.Record → kind.Record) : Duplication :=
  { s with ctx := s.ctx.update r f }

section Enter

variable (s) (old : Ref kind) (x : kind.Record)

/-- Entering a copy notes it in front of the copies of its kind. -/
theorem entries_enter (ht : kind ≠ .tree) (hn : kind ≠ .node) :
    (s.enter kind old x).entries kind = (old, (s.ctx.insert kind x).1) :: s.entries kind := by
  cases kind <;> first | rfl | contradiction

/-- Entering a copy leaves the copies of other kinds. -/
theorem entries_enter_of_ne (ht : kind ≠ .tree) (hn : kind ≠ .node) (h : kind' ≠ kind) :
    (s.enter kind old x).entries kind' = s.entries kind' := by
  cases kind <;> cases kind' <;> first | rfl | contradiction

/-- Entering a copy forgets none. -/
theorem subset_entries_enter (ht : kind ≠ .tree) (hn : kind ≠ .node) (kind' : EntityKind) :
    s.entries kind' ⊆ (s.enter kind old x).entries kind' := by
  by_cases h : kind' = kind
  · subst h
    rw [entries_enter s old x ht hn]
    exact List.subset_cons_self _ _
  · rw [entries_enter_of_ne s old x ht hn h]
    exact List.Subset.refl _

/-- What is entered is the copy of what it was entered for. -/
theorem copies_enter_self (ht : kind ≠ .tree) (hn : kind ≠ .node) :
    (s.enter kind old x).Copies old (s.ctx.insert kind x).1 := by
  rw [Copies, entries_enter s old x ht hn]
  exact List.mem_cons_self

/-- After an entity was entered there is one more copy. -/
theorem copies_enter_cases (ht : kind ≠ .tree) (hn : kind ≠ .node) {a b : Ref kind'}
    (h : (s.enter kind old x).Copies a b) :
    s.Copies a b ∨ (⟨kind', b⟩ : AnyRef) = ⟨kind, (s.ctx.insert kind x).1⟩ := by
  by_cases hk : kind' = kind
  · subst hk
    rw [Copies, entries_enter s old x ht hn] at h
    rcases List.mem_cons.1 h with heq | h
    · cases heq
      exact Or.inr rfl
    · exact Or.inl h
  · rw [Copies, entries_enter_of_ne s old x ht hn hk] at h
    exact Or.inl h

theorem ctx_enter : (s.enter kind old x).ctx = (s.ctx.insert kind x).2 := rfl

/-- Entering a copy draws no number. -/
theorem numbers_enter : (s.enter kind old x).supply = s.supply ∧ (s.enter kind old x).planNodes = s.planNodes ∧
    (s.enter kind old x).conditions = s.conditions ∧ (s.enter kind old x).used = s.used := by
  cases kind <;> exact ⟨rfl, rfl, rfl, rfl⟩

/-- Entering a copy of what is no node notes no loose node. -/
theorem looseNodes_enter (hn : kind ≠ .node) : (s.enter kind old x).looseNodes = s.looseNodes := by
  cases kind <;> first | rfl | contradiction

end Enter

/-- An insertion keeps all entities. -/
theorem keepsBare_insert (ctx : Context) (x : kind.Record) : ctx.KeepsBare (ctx.insert kind x).2 := by
  intro kind' r y hy
  exact ⟨y, by rw [Context.record?_insert_of_has x (Context.has_of_record? hy), hy], rfl⟩

/-- Entering a copy makes a later state. -/
theorem extends_enter (s : Duplication) (old : Ref kind) (x : kind.Record) (ht : kind ≠ .tree) (hn : kind ≠ .node) :
    s.Extends (s.enter kind old x) := by
  obtain ⟨hs, hp, hc, hu⟩ := numbers_enter s old x
  refine ⟨subset_entries_enter s old x ht hn, ?_, ?_, ?_, keepsBare_insert s.ctx x, ?_⟩
  · rw [hc]
    exact List.Subset.refl _
  · rw [hp]
    exact List.Subset.refl _
  · rw [hu]
    exact List.Subset.refl _
  · exact Int.le_of_eq (congrArg Supply.next hs.symm)

/-- An entity that has no copy yet gets one. -/
theorem Additive.enter (h : Additive s₀ input s) (ht : kind ≠ .tree) (hn : kind ≠ .node) {old : Ref kind}
    {x : kind.Record} (hold : input.Has old) (hnew : old ∉ (s.entries kind).map (·.1)) (hx : s.ctx.record? old = some x) :
    Additive s₀ input (s.enter kind old x) := by
  obtain ⟨hs, hp, hc, hu⟩ := numbers_enter s old x
  refine
    { wellFormed := ?wellFormed, frame := ?frame, kept := ?kept, table := ?table, noLoose := ?noLoose
      numbered := h.numbered.congr hs hp hc hu, joins := ?joins }
  case wellFormed =>
    refine h.wellFormed.insert ht hn ?_
    intro ref href
    exact (h.wellFormed.closed old x (Context.has_of_record? hx) hx ref href).insert x
  case frame =>
    intro kind' r hr
    rw [ctx_enter, Context.record?_insert_of_has x (h.has_of_start hr)]
    exact h.frame r hr
  case kept =>
    exact h.kept.trans (keepsBare_insert s.ctx x)
  case table =>
    intro kind'
    by_cases hk : kind' = kind
    · subst hk
      rw [entries_enter s old x ht hn, ctx_enter, Context.size_insert]
      exact (h.table kind').cons hnew hold
    · rw [entries_enter_of_ne s old x ht hn hk, ctx_enter, Context.arena_insert_of_ne _ _ hk]
      exact h.table kind'
  case noLoose =>
    rw [looseNodes_enter s old x hn]
    exact h.noLoose
  case joins =>
    intro c hc'
    rw [Context.joinOfCondition?, ctx_enter, Context.conditionJoins_insert]
    exact h.joins c hc'

/-- A new entity was not there before. -/
theorem not_has_insert_self (ctx : Context) (x : kind.Record) : ¬ctx.Has (ctx.insert kind x).1 :=
  Nat.lt_irrefl _

/-- An entity gets a copy, which is pending. -/
theorem InSession.enter (h : InSession s₀ input pending s) (ht : kind ≠ .tree) (hn : kind ≠ .node) {old : Ref kind}
    {x : kind.Record} (hold : input.Has old) (hnew : old ∉ (s.entries kind).map (·.1)) (hx : s.ctx.record? old = some x) :
    InSession s₀ input (⟨kind, (s.ctx.insert kind x).1⟩ :: pending) (s.enter kind old x) := by
  have hext := extends_enter s old x ht hn
  have hfresh : ¬s.ctx.Has (s.ctx.insert kind x).1 := not_has_insert_self s.ctx x
  have hrecord : ∀ {kind' : EntityKind} {a b : Ref kind'}, s.Copies a b →
      (s.enter kind old x).ctx.record? b = s.ctx.record? b :=
    fun hab => Context.record?_insert_of_has x (h.has_copy hab)
  refine
    { toAdditive := h.toAdditive.enter ht hn hold hnew hx
      pendingNodup := ?pendingNodup, pendingNew := ?pendingNew, faithful := ?faithful, uses := ?uses }
  case pendingNodup =>
    refine List.nodup_cons.2 ⟨?_, h.pendingNodup⟩
    intro hmem
    obtain ⟨-, o, ho⟩ := h.pendingNew _ hmem
    exact hfresh (h.has_copy ho)
  case pendingNew =>
    intro ref href
    rcases List.mem_cons.1 href with rfl | href
    · exact ⟨⟨ht, fun hin => hfresh (h.has_of_input hin)⟩, old, copies_enter_self s old x ht hn⟩
    · obtain ⟨hin, o, ho⟩ := h.pendingNew ref href
      exact ⟨hin, o, hext.copies ho⟩
  -- The new copy is pending, so that it may still differ from its original.
  case faithful =>
    intro kind' a b hab hpend
    rw [List.mem_cons, not_or] at hpend
    rcases copies_enter_cases s old x ht hn hab with hab | heq
    · obtain ⟨y, z, hy, hz, hf⟩ := h.faithful a b hab hpend.2
      refine ⟨y, z, ?_, ?_, hf.mono hext.entries hext.conditions⟩
      · rw [ctx_enter, Context.record?_insert_of_has x (Context.has_of_record? hy), hy]
      · rw [hrecord hab, hz]
    · exact absurd heq hpend.1
  -- A node never gets its copy in this way, and the new copy is no finished copy of a source.
  case uses =>
    intro a b y hab hy
    have hab' : s.Copies a b := by
      rcases copies_enter_cases s old x ht hn hab with hab | heq
      · exact hab
      · cases heq
        exact absurd rfl hn
    rw [hrecord hab'] at hy
    obtain ⟨hnodup, hmem⟩ := h.uses a b y hab' hy
    refine ⟨hnodup, ?_⟩
    intro r
    rw [hmem, List.mem_cons, not_or]
    constructor
    · rintro ⟨⟨o, ho⟩, hpend, z, hz, hnode⟩
      refine ⟨⟨o, hext.copies ho⟩, ⟨?_, hpend⟩, z, ?_, hnode⟩
      · intro heq
        cases heq
        exact hfresh (h.has_copy ho)
      · rw [hrecord ho, hz]
    · rintro ⟨⟨o, ho⟩, ⟨hne, hpend⟩, z, hz, hnode⟩
      have ho' := (copies_enter_cases s old x ht hn ho).resolve_right hne
      rw [hrecord ho'] at hz
      exact ⟨⟨o, ho'⟩, hpend, z, hz, hnode⟩

/-! ## Finishing a copy -/

/-- Changing a record leaves the copies as they are noted. -/
theorem entries_change (s : Duplication) (r : Ref kind) (f : kind.Record → kind.Record) (ht : kind ≠ .tree)
    (kind' : EntityKind) : (s.change r f).entries kind' = s.entries kind' := by
  cases kind <;> cases kind' <;> first | rfl | contradiction

/-- Changing a record changes nothing about what is a copy of what. -/
theorem copies_change (s : Duplication) (r : Ref kind) (f : kind.Record → kind.Record) (ht : kind ≠ .tree)
    {a b : Ref kind'} : (s.change r f).Copies a b ↔ s.Copies a b := by
  rw [Copies, entries_change s r f ht, Copies]

/-- A changed entity has the record that it was given. -/
theorem record?_change_self {r : Ref kind} (hr : s.ctx.Has r) (y : kind.Record) :
    (s.change r fun _ => y).ctx.record? r = some y := by
  obtain ⟨z, hz⟩ := Context.exists_record? hr
  rw [change, Context.record?_update_self, hz]
  rfl

/-- A copy can change; if it was made before the current call, only its uses can. -/
theorem Additive.change (h : Additive s₀ input s) (ht : kind ≠ .tree) {old new : Ref kind}
    {f : kind.Record → kind.Record} (hc : s.Copies old new) (hwf : (s.change new f).ctx.WellFormed)
    (hbare : input.Has new → ∀ x, kind.bare (f x) = kind.bare x) : Additive s₀ input (s.change new f) := by
  refine ⟨hwf, ?_, ?_, ?_, h.noLoose, h.numbered.congr rfl rfl rfl rfl, ?_⟩
  · intro kind' r hr
    rw [← h.frame r hr]
    refine Context.record?_update_of_ne f ?_
    intro heq
    cases heq
    exact h.not_has_copy hc hr
  · intro kind' r x hx
    obtain ⟨y, hy, hyx⟩ := h.kept r x hx
    by_cases heq : (⟨kind', r⟩ : AnyRef) = ⟨kind, new⟩
    · cases heq
      refine ⟨f y, ?_, (hbare (Context.has_of_record? hx) y).trans hyx⟩
      rw [Duplication.change, Context.record?_update_self, hy]
      rfl
    · exact ⟨y, (Context.record?_update_of_ne f heq).trans hy, hyx⟩
  · intro kind'
    rw [entries_change s new f ht, Duplication.change, Context.size_update]
    exact h.table kind'
  · intro c hc'
    rw [Context.joinOfCondition?, Duplication.change, Context.conditionJoins_update]
    exact h.joins c hc'

/-- Only nodes have a part that changes after they were copied. -/
theorem bare_of_ne (hn : kind ≠ .node) (x : kind.Record) : kind.bare x = x := by
  cases kind <;> first | rfl | contradiction

/-- The references of a faithful copy lead to entities, as the uses apart all of them are copies. -/
theorem Additive.has_of_faithful (h : Additive s₀ input s) (hn : kind ≠ .node) {x y : kind.Record}
    (hf : s.Faithful kind x y) : ∀ ref ∈ kind.references y, s.ctx.Has ref.2 := by
  intro ref href
  rw [← bare_of_ne hn y] at href
  obtain ⟨o, ho⟩ := hf.exists_copies ref href
  exact h.has_copy ho

/-- Filling in a copy that was made in the current call adds nothing else to the session. -/
theorem Additive.finish (h : Additive s₀ input s) (ht : kind ≠ .tree) (hn : kind ≠ .node) {old new : Ref kind}
    {x y : kind.Record} (hc : s.Copies old new) (hnew : ¬input.Has new) (hf : s.Faithful kind x y) :
    Additive s₀ input (s.change new fun _ => y) := by
  refine h.change ht hc ⟨?_, ?_⟩ fun hin => absurd hin hnew
  · exact Context.Closed.update h.wellFormed.closed fun _ _ _ => h.has_of_faithful hn hf
  · exact h.wellFormed.shaped.of_sameTrees (Context.sameTrees_withArena s.ctx _ ht hn)

/-- The copies that are finished stay faithful when one more is finished. -/
theorem InSession.faithful_finish {old new : Ref kind} {x y : kind.Record}
    (h : InSession s₀ input (⟨kind, new⟩ :: pending) s) (ht : kind ≠ .tree) (hc : s.Copies old new)
    (hx : s.ctx.record? old = some x) (hf : s.Faithful kind x y) {a b : Ref kind'}
    (hab : (s.change new fun _ => y).Copies a b) (hpend : (⟨kind', b⟩ : AnyRef) ∉ pending) :
    ∃ x' y', (s.change new fun _ => y).ctx.record? a = some x' ∧ (s.change new fun _ => y).ctx.record? b = some y' ∧
      (s.change new fun _ => y).Faithful kind' x' y' := by
  have hentries : ∀ kind', s.entries kind' ⊆ (s.change new fun _ => y).entries kind' := by
    intro kind'
    rw [entries_change s new _ ht]
    exact List.Subset.refl _
  have hin : ¬input.Has new := (h.pendingNew ⟨kind, new⟩ (by simp)).1.2
  have horiginal : ∀ {kind' : EntityKind} {a b : Ref kind'}, s.Copies a b → (⟨kind', a⟩ : AnyRef) ≠ ⟨kind, new⟩ := by
    intro kind' a b hab heq
    cases heq
    exact hin (h.input_has_original hab)
  rw [copies_change s new _ ht] at hab
  by_cases heq : (⟨kind', b⟩ : AnyRef) = ⟨kind, new⟩
  · cases heq
    rw [h.original_unique hab hc]
    refine ⟨x, y, ?_, record?_change_self (h.has_copy hc) y, hf.mono hentries (List.Subset.refl _)⟩
    exact (Context.record?_update_of_ne _ (horiginal hc)).trans hx
  · obtain ⟨x', y', hx', hy', hf'⟩ := h.faithful a b hab (by simp [heq, hpend])
    refine ⟨x', y', ?_, ?_, hf'.mono hentries (List.Subset.refl _)⟩
    · exact (Context.record?_update_of_ne _ (horiginal hab)).trans hx'
    · exact (Context.record?_update_of_ne _ heq).trans hy'

/-- A copy other than that of a source gets its own references and is finished. -/
theorem InSession.finish {old new : Ref kind} {x y : kind.Record}
    (h : InSession s₀ input (⟨kind, new⟩ :: pending) s) (ht : kind ≠ .tree) (hn : kind ≠ .node) (hs : kind ≠ .source)
    (hc : s.Copies old new) (hx : s.ctx.record? old = some x) (hf : s.Faithful kind x y) :
    InSession s₀ input pending (s.change new fun _ => y) := by
  have hcopies : ∀ {kind' : EntityKind} {a b : Ref kind'}, (s.change new fun _ => y).Copies a b ↔ s.Copies a b :=
    copies_change s new _ ht
  refine ⟨h.toAdditive.finish ht hn hc (h.pendingNew ⟨kind, new⟩ (by simp)).1.2 hf, (List.nodup_cons.1 h.pendingNodup).2, ?_,
    fun kind' a b hab hpend => h.faithful_finish ht hc hx hf hab hpend, ?_⟩
  · intro ref href
    obtain ⟨hin, o, ho⟩ := h.pendingNew ref (List.mem_cons_of_mem _ href)
    exact ⟨hin, o, hcopies.2 ho⟩
  · intro a b z hab hz
    have hnode : ∀ b : NodeId, (s.change new fun _ => y).ctx.record? b = s.ctx.record? b :=
      fun b => Context.record?_update_of_ne _ (by simp [hn.symm])
    have hsource : ∀ r : SourceId, (s.change new fun _ => y).ctx.record? r = s.ctx.record? r :=
      fun r => Context.record?_update_of_ne _ (by simp [hs.symm])
    rw [hnode] at hz
    obtain ⟨hnodup, hmem⟩ := h.uses a b z (hcopies.1 hab) hz
    refine ⟨hnodup, ?_⟩
    intro r
    have hpend : (⟨.source, r⟩ : AnyRef) ∉ (⟨kind, new⟩ : AnyRef) :: pending ↔ (⟨.source, r⟩ : AnyRef) ∉ pending := by
      simp [hs.symm]
    rw [hmem, hpend, hsource]
    simp only [hcopies]

/-- Noting a use on a node keeps all entities up to their uses. -/
theorem keepsBare_addUse (ctx : Context) (n : NodeId) (r : SourceId) : ctx.KeepsBare (ctx.update n (·.addUse r)) := by
  intro kind a x hx
  by_cases heq : (⟨kind, a⟩ : AnyRef) = ⟨.node, n⟩
  · cases heq
    refine ⟨x.addUse r, ?_, ?_⟩
    · rw [Context.record?_update_self, hx]
      rfl
    · rw [TableNode.addUse_eq]
      rfl
  · exact ⟨x, (Context.record?_update_of_ne _ heq).trans hx, rfl⟩

/-- When the copy of a source is finished, it is in the uses of its node and in those of no other one. -/
theorem InSession.uses_finishSource {old new : SourceId} {y : TableSource}
    (h : InSession s₀ input ((⟨.source, new⟩ : AnyRef) :: pending) s) (hc : s.Copies old new) {a b : NodeId}
    (hab : s.Copies a b) {z : TableNode}
    (hz : ((s.change new fun _ => y).change y.node (·.addUse new)).ctx.record? b = some z) :
    z.uses.Nodup ∧ ∀ r, r ∈ z.uses ↔ (∃ o, s.Copies o r) ∧ (⟨.source, r⟩ : AnyRef) ∉ pending ∧
      ∃ x : TableSource, (s.change new fun _ => y).ctx.record? r = some x ∧ x.node = b := by
  have hself := record?_change_self (h.has_copy hc) y
  have hother : ∀ r : SourceId, r ≠ new → (s.change new fun _ => y).ctx.record? r = s.ctx.record? r :=
    fun r hr => Context.record?_update_of_ne _ (by simpa using hr)
  have hfree : (⟨.source, new⟩ : AnyRef) ∉ pending := (List.nodup_cons.1 h.pendingNodup).1
  obtain ⟨w, hw, hnodup, hmem⟩ := Context.record?_addUse hz
  replace hw : s.ctx.record? b = some w := (Context.record?_update_of_ne _ (by simp)).symm.trans hw
  refine ⟨hnodup (h.uses a b w hab hw).1, ?_⟩
  intro r
  rw [hmem, (h.uses a b w hab hw).2]
  by_cases hr : r = new
  · subst hr
    rw [hself]
    constructor
    · rintro (⟨-, hpend, -⟩ | ⟨-, rfl⟩)
      · exact absurd List.mem_cons_self hpend
      · exact ⟨⟨old, hc⟩, hfree, y, rfl, rfl⟩
    · rintro ⟨-, -, x', hx', rfl⟩
      cases hx'
      exact Or.inr ⟨rfl, rfl⟩
  · rw [hother r hr]
    simp [hr]

/-- The copy of a source gets its own references, comes into the uses of its node and is finished. -/
theorem InSession.finishSource {old new : SourceId} {x y : TableSource}
    (h : InSession s₀ input ((⟨.source, new⟩ : AnyRef) :: pending) s) (hc : s.Copies old new)
    (hx : s.ctx.record? old = some x) (hf : s.Faithful .source x y) :
    InSession s₀ input pending ((s.change new fun _ => y).change y.node (·.addUse new)) := by
  have hchanged : ∀ {kind : EntityKind} {a b : Ref kind}, (s.change new fun _ => y).Copies a b ↔ s.Copies a b :=
    copies_change s new _ (by simp)
  have hcopies : ∀ {kind : EntityKind} {a b : Ref kind},
      ((s.change new fun _ => y).change y.node (·.addUse new)).Copies a b ↔ s.Copies a b :=
    (copies_change _ y.node _ (by simp)).trans hchanged
  have hadd : Additive s₀ input (s.change new fun _ => y) :=
    h.toAdditive.finish (by simp) (by simp) hc (h.pendingNew ⟨.source, new⟩ (by simp)).1.2 hf
  have hnew : (s.change new fun _ => y).ctx.Has new := (Context.has_update _ _ _ _).2 (h.has_copy hc)
  have hbare := keepsBare_addUse (s.change new fun _ => y).ctx y.node new
  refine ⟨hadd.change (by simp) (hchanged.2 hf.1) (hadd.wellFormed.addUse hnew) ?_, (List.nodup_cons.1 h.pendingNodup).2, ?_,
    ?_, ?_⟩
  · intro _ n
    rw [TableNode.addUse_eq]
    rfl
  · intro ref href
    obtain ⟨hin, o, ho⟩ := h.pendingNew ref (List.mem_cons_of_mem _ href)
    exact ⟨hin, o, hcopies.2 ho⟩
  · intro kind a b hab hpend
    have hab' := hchanged.2 (hcopies.1 hab)
    obtain ⟨x', y', hx', hy', hf'⟩ := h.faithful_finish (by simp) hc hx hf hab' hpend
    obtain ⟨x'', hx'', hxx⟩ := hbare a x' hx'
    obtain ⟨y'', hy'', hyy⟩ := hbare b y' hy'
    refine ⟨x'', y'', hx'', hy'', (hf'.congr_bare hxx hyy).mono ?_ (List.Subset.refl _)⟩
    intro kind
    rw [entries_change _ y.node _ (by simp)]
    exact List.Subset.refl _
  · intro a b z hab hz
    have hsource : ∀ r : SourceId, ((s.change new fun _ => y).change y.node (·.addUse new)).ctx.record? r =
        (s.change new fun _ => y).ctx.record? r := fun r => Context.record?_update_of_ne _ (by simp)
    simp only [hcopies, hsource]
    exact h.uses_finishSource hc (hcopies.1 hab) hz

/-! ## Later states -/

/-- Filling in an entity that was not there in an earlier state makes a later state. -/
theorem Extends.change {s₁ : Duplication} (h : s₁.Extends s) (ht : kind ≠ .tree) {r : Ref kind}
    (hr : ¬s₁.ctx.Has r) (f : kind.Record → kind.Record) : s₁.Extends (s.change r f) := by
  refine ⟨?_, h.conditions, h.planNodes, h.used, ?_, h.next⟩
  · intro kind'
    rw [entries_change s r f ht]
    exact h.entries kind'
  · intro kind' a x hx
    obtain ⟨y, hy, hyx⟩ := h.kept a x hx
    refine ⟨y, (Context.record?_update_of_ne f ?_).trans hy, hyx⟩
    intro heq
    cases heq
    exact hr (Context.has_of_record? hx)

/-- Noting a use on a node makes a later state. -/
theorem extends_addUse (s : Duplication) (n : NodeId) (r : SourceId) : s.Extends (s.change n (·.addUse r)) := by
  refine ⟨?_, List.Subset.refl _, List.Subset.refl _, List.Subset.refl _, keepsBare_addUse s.ctx n r, Int.le_refl _⟩
  intro kind
  rw [entries_change s n _ (by simp)]
  exact List.Subset.refl _

end ClusterPlan.Duplication
