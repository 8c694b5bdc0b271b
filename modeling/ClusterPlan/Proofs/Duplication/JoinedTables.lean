import ClusterPlan.Proofs.Catalog.Ancestry
import ClusterPlan.Proofs.Context.SourceTables
import ClusterPlan.Proofs.Duplication.GroupCopies
import ClusterPlan.Proofs.Duplication.Mirror

/-!
# The tables that group joins connect

A group join connects the tables of its sources along a key of the catalog. Sources keep their tables and copies use those of
their originals, so what relates the key to the two tables is decided when the join is added (`Operation.links_apply_iff`). The
test that is made then looks at the parent of the key only: the table of the parent source is the parent of that of the child
source, but the key may be that of another child of the same parent (`not_ownJoins_of_borrowed`).
-/

namespace ClusterPlan

open Duplication

/-- The key leads down from the first table, which the second one is stored beneath. -/
def Catalog.Join.Leads (join : Catalog.Join) (parent child : Catalog.Table) : Prop :=
  join.parent.id = parent.id ∧ ∃ p, child.parent? = some p ∧ p.id = parent.id

namespace Context

variable {P : Catalog.Join → Catalog.Table → Catalog.Table → Prop} {ctx ctx' : Context}

/-- Two sources are joined by a catalog join exactly if it leads from the table of one to that of the other. -/
theorem joins_iff {join : Catalog.Join} {parent child : SourceId} :
    ctx.joins join parent child = true ↔ join.Leads (ctx.tableOf parent) (ctx.tableOf child) := by
  simp only [joins, Catalog.Join.Leads, Catalog.Table.same, Bool.and_eq_true, beq_iff_eq, Option.any_eq_true]

/-- All group joins have a property, which is one of their key and the tables of their parent and their child. -/
def Links (P : Catalog.Join → Catalog.Table → Catalog.Table → Prop) (ctx : Context) : Prop :=
  ∀ (j : GroupJoinId) x, ctx.record? j = some x → P x.join (ctx.tableOf x.parent) (ctx.tableOf x.child)

instance [∀ join parent child, Decidable (P join parent child)] (ctx : Context) : Decidable (ctx.Links P) :=
  decidable_of_iff' (∀ x ∈ ctx.groupJoins.items, P x.join (ctx.tableOf x.parent) (ctx.tableOf x.child))
    ctx.groupJoins.forall_get?_iff

/-- Without joins there is nothing to check. -/
theorem links_withConfig (config : Config) : (withConfig config).Links P := by
  intro j x hx
  cases hx

/-- Each join comes from one with the same sources and the same key. -/
def KeepsJoins (ctx ctx' : Context) : Prop :=
  ∀ (j : GroupJoinId) y, ctx'.record? j = some y →
    ∃ x : GroupJoin, ctx.record? j = some x ∧ y.parent = x.parent ∧ y.child = x.child ∧ y.join = x.join

/-- The parent source of a join is in the context. -/
theorem WellFormed.has_parent (h : ctx.WellFormed) {j : GroupJoinId} {x : GroupJoin} (hx : ctx.record? j = some x) :
    ctx.Has x.parent :=
  h.closed j x (has_of_record? hx) hx ⟨.source, x.parent⟩ (by simp [EntityKind.references])

/-- The child source of a join is in the context. -/
theorem WellFormed.has_child (h : ctx.WellFormed) {j : GroupJoinId} {x : GroupJoin} (hx : ctx.record? j = some x) :
    ctx.Has x.child :=
  h.closed j x (has_of_record? hx) hx ⟨.source, x.child⟩ (by simp [EntityKind.references])

/-- Where joins keep their sources and sources their tables, the property that links have stays. -/
theorem Links.of_keeps (h : ctx.Links P) (hwf : ctx.WellFormed) (hj : ctx.KeepsJoins ctx') (ht : ctx.KeepsTables ctx') :
    ctx'.Links P := by
  intro j y hy
  obtain ⟨x, hx, hparent, hchild, hjoin⟩ := hj j y hy
  rw [hparent, hchild, hjoin, ht.tableOf hwf (hwf.has_parent hx), ht.tableOf hwf (hwf.has_child hx)]
  exact h j x hx

/-- The same joins connect the same sources. -/
theorem keepsJoins_of_eq (h : ∀ j : GroupJoinId, ctx'.record? j = ctx.record? j) : ctx.KeepsJoins ctx' :=
  fun j y hy => ⟨y, (h j).symm.trans hy, rfl, rfl, rfl⟩

/-- Changes of joins that leave their sources and their catalog joins keep what they connect. -/
theorem keepsJoins_of_map {f : GroupJoinId → GroupJoin → GroupJoin}
    (h : ∀ j : GroupJoinId, ctx'.record? j = (ctx.record? j).map (f j))
    (hf : ∀ j x, (f j x).parent = x.parent ∧ (f j x).child = x.child ∧ (f j x).join = x.join) : ctx.KeepsJoins ctx' := by
  intro j y hy
  rw [h] at hy
  obtain ⟨x, hx, rfl⟩ := Option.map_eq_some_iff.1 hy
  exact ⟨x, hx, hf j x⟩

/-- A new group changes no join. -/
theorem keepsJoins_addGroup (ctx : Context) (first : SourceId) : ctx.KeepsJoins (ctx.addGroup first).2 := by
  refine keepsJoins_of_eq fun j => ?_
  rw [addGroup_eq]
  exact (record?_update_of_kind _ _ _ (by simp) j).trans (record?_insert_of_ne ctx _ (by simp) j)

/-- A rejected join still connects its sources. -/
theorem keepsJoins_rejectGroupJoin {id : GroupJoinId} (hid : ctx.Has id) : ctx.KeepsJoins (ctx.rejectGroupJoin id) := by
  obtain ⟨x, hx⟩ := exists_record? hid
  cases hr : x.rejected with
  | true =>
    rw [rejectGroupJoin_of_rejected hx hr]
    exact keepsJoins_of_eq fun _ => rfl
  | false =>
    refine keepsJoins_of_map (record?_groupJoin_rejectGroupJoin hx hr) fun j x => ?_
    split <;> exact ⟨rfl, rfl, rfl⟩

/-- A join that moves to another group still connects its sources. -/
theorem keepsJoins_mergeGroups {into other : GroupId} (ho : ctx.Has other) : ctx.KeepsJoins (ctx.mergeGroups into other) := by
  obtain ⟨g, hg⟩ := exists_record? ho
  by_cases hne : into = other
  · rw [hne, mergeGroups_self]
    exact keepsJoins_of_eq fun _ => rfl
  · refine keepsJoins_of_map (record?_groupJoin_mergeGroups hg hne) fun j x => ?_
    split <;> exact ⟨rfl, rfl, rfl⟩

/-- A new join among joins that have the property. -/
theorem Links.addGroupJoin_iff (h : ctx.Links P) (hwf : ctx.WellFormed) {group : GroupId} {parent child : SourceId}
    {conditions : List ConditionId} {join : Catalog.Join} {id : GroupJoinId} (hp : ctx.Has parent) (hc : ctx.Has child)
    (hok : ctx.addGroupJoin group parent child conditions join = .ok (id, ctx')) :
    ctx'.Links P ↔ P join (ctx.tableOf parent) (ctx.tableOf child) := by
  have hjoins := record?_groupJoin_addGroupJoin hok
  have htable : ∀ {s : SourceId}, ctx.Has s → ctx'.tableOf s = ctx.tableOf s :=
    (samePlaces_addGroupJoin hok).keepsTables.tableOf hwf
  constructor
  · intro h'
    have hnew := h' id _ ((hjoins id).trans (if_pos rfl))
    rwa [htable hp, htable hc] at hnew
  · intro hP j x hx
    rw [hjoins] at hx
    split at hx
    · cases hx
      rwa [htable hp, htable hc]
    · rw [htable (hwf.has_parent hx), htable (hwf.has_child hx)]
      exact h j x hx

end Context

/-! ## Copies -/

namespace Duplication

variable {P : Catalog.Join → Catalog.Table → Catalog.Table → Prop} {s₀ s : Duplication} {input : Context}

/-- A session leaves the tables of the sources from before it. -/
theorem InSession.keepsTables (h : InSession s₀ input [] s) : s₀.ctx.KeepsTables s.ctx := Context.keepsTables_of_frame h.frame

/-- A copy of a source uses the table that the source uses. -/
theorem InSession.tableOf_copy (h : InSession s₀ input [] s) {r r' : SourceId} (hc : s.Copies r r') :
    s.ctx.tableOf r' = s.ctx.tableOf r := by
  obtain ⟨x, x', hx, hx', hnode, -⟩ := h.faithful r r' hc (by simp)
  obtain ⟨n, n', hn, hn', -, htable, -⟩ := h.faithful _ _ hnode (by simp)
  rw [Context.tableOf_of_record? hx hn, Context.tableOf_of_record? hx' hn', htable]

/-- The copy of a join connects the copies of its sources, which use the same tables. -/
theorem InSession.links (h : InSession s₀ input [] s) (ho : s.Ordered) (hwf : s₀.ctx.WellFormed) (hl : s₀.ctx.Links P) :
    s.ctx.Links P := by
  refine h.inductionOn ho ?_ ?_
  · intro j x hx
    rw [h.keepsTables.tableOf hwf (hwf.has_parent hx), h.keepsTables.tableOf hwf (hwf.has_child hx)]
    exact hl j x hx
  · -- a copy has the key of its original and connects copies of its sources
    intro j j' x x' _ _ _ hf hP
    obtain ⟨-, hparent, hchild, -, hjoin, -⟩ := hf
    rwa [h.tableOf_copy hparent, h.tableOf_copy hchild, hjoin]

end Duplication

/-! ## Operations -/

namespace Operation

variable {P : Catalog.Join → Catalog.Table → Catalog.Table → Prop} {st : Context × Supply} {op : Operation}

/-- If the operation adds a group join, the join has the property. -/
def Links (P : Catalog.Join → Catalog.Table → Catalog.Table → Prop) (st : Context × Supply) : Operation → Prop
  | addGroupJoin _ parent child _ join =>
    st.1.joins join parent child = true → P join (st.1.tableOf parent) (st.1.tableOf child)
  | _ => True

/-- No operation changes the table of a source. -/
theorem keepsTables_apply (hwf : st.1.WellFormed) (hv : op.Valid st) : st.1.KeepsTables (apply st op).1 := by
  by_cases hp : op.Places
  · cases op with
    | addTree group => exact Context.keepsTables_addTree st.1 group
    | nodeFor tree table => exact hwf.keepsTables_nodeFor hv table
    | addSource node name required => exact Context.keepsTables_addSource st.1 node name required
    | duplicate calls => exact ((session_of_along hv).inSession hwf).keepsTables
    | _ => exact hp.elim
  · exact (samePlaces_apply st hp).keepsTables

/-- One more operation keeps a property of all group joins exactly if a join that it adds has the property. -/
theorem links_apply_iff (hwf : st.1.WellFormed) (hv : op.Valid st) (hl : st.1.Links P) :
    (apply st op).1.Links P ↔ op.Links P st := by
  -- most operations add no join and leave each with its sources and its key
  have hkept : ∀ {op : Operation}, op.Valid st → st.1.KeepsJoins (apply st op).1 → op.Links P st →
      ((apply st op).1.Links P ↔ op.Links P st) :=
    fun hv hj hadds => iff_of_true (hl.of_keeps hwf hj (keepsTables_apply hwf hv)) hadds
  cases op with
  | addGroupJoin group parent child conditions join =>
    rcases addGroupJoin_cases st group parent child conditions join with ⟨r, hok, heq⟩ | ⟨hrefused, heq⟩
    · rw [heq, hl.addGroupJoin_iff hwf hv.2.1 hv.2.2 hok, Links, forall_prop_of_true (Context.addGroupJoin_ok hok).1]
    · rw [heq]
      exact iff_of_true hl fun hj => absurd hj (Bool.eq_false_iff.1 hrefused)
  | duplicate calls =>
    have hs := session_of_along hv
    exact iff_of_true ((hs.inSession hwf).links (hs.ordered hwf) hwf hl) trivial
  | addGroup first => exact hkept hv (Context.keepsJoins_addGroup st.1 first) trivial
  | rejectGroupJoin id => exact hkept hv (Context.keepsJoins_rejectGroupJoin hv) trivial
  | mergeGroups into other => exact hkept hv (Context.keepsJoins_mergeGroups hv.2) trivial
  | nodeFor tree table => exact hkept hv (Context.keepsJoins_of_eq (Context.sameLinks_nodeFor tree table).groupJoin) trivial
  | draw | setProperty _ _ | addTree _ | addSource _ _ _ | setRequired _ _ | addKeyJoin _ _ _ _ | addHashTable _
  | addBloomFilter _ => exact hkept hv (Context.keepsJoins_of_eq fun _ => rfl) trivial

/-- What is tested when a join is added. -/
theorem links_leads (st : Context × Supply) (op : Operation) : op.Links Catalog.Join.Leads st := by
  cases op with
  | addGroupJoin group parent child conditions join => exact Context.joins_iff.1
  | _ => trivial

end Operation

/-! ## The tables of parent and child -/

section Hierarchy

variable {T : Catalog.Table → Prop} {ctx : Context} {supply : Supply}

/-- Where ids identify tables, a key that leads down to a table comes from the parent of the table. -/
theorem Catalog.Join.Leads.parent?_eq (hT : Catalog.Table.Identified T) {join : Catalog.Join} {parent child : Catalog.Table}
    (h : join.Leads parent child) (hp : T parent) (hc : T child) : child.parent? = some parent := by
  obtain ⟨-, p, hparent, hid⟩ := h
  rw [hparent, hT.ids p parent (hT.parents child p hc hparent) hp hid]

/-- In every reachable context the keys of group joins lead from the table of the parent to that of the child. -/
theorem Reached.leads (h : Reached ctx supply) : ctx.Links Catalog.Join.Leads :=
  h.inductionOn (P := fun st => st.1.Links Catalog.Join.Leads) Context.links_withConfig fun st op hst hv hl =>
    (Operation.links_apply_iff hst.wellFormed hv hl).2 (op.links_leads st)

/-- Where ids identify tables, the source above a joined source uses the parent of its table, which the key comes from. -/
theorem Reached.parentTables (h : Reached ctx supply) (hT : Catalog.Table.Identified T) (hctx : ctx.TablesIn T) :
    ctx.Links fun join parent child => child.parent? = some parent ∧ (T join.parent → join.parent = parent) := by
  intro j x hx
  have hp := hctx.tableOf h.wellFormed (h.wellFormed.has_parent hx)
  have hc := hctx.tableOf h.wellFormed (h.wellFormed.has_child hx)
  have hleads := h.leads j x hx
  exact ⟨hleads.parent?_eq hT hp hc, fun hjoin => hT.ids _ _ hjoin hp hleads.1⟩

end Hierarchy

/-! ## Keys of other tables -/

/-- Each group join runs along the key of the table of its child. -/
def Context.OwnJoins (ctx : Context) : Prop := ctx.Links fun join _ child => child.parentJoin? = some join

namespace Operation

/-- An operation that adds a group join along a key that is not that of the table of the child. -/
def Borrows (st : Context × Supply) : Operation → Prop
  | addGroupJoin _ parent child _ join =>
    st.1.joins join parent child = true ∧ (st.1.tableOf child).parentJoin? ≠ some join
  | _ => False

instance (st : Context × Supply) : (op : Operation) → Decidable (op.Borrows st)
  | addGroupJoin _ parent child _ join =>
    inferInstanceAs (Decidable (st.1.joins join parent child = true ∧ (st.1.tableOf child).parentJoin? ≠ some join))
  | draw | setProperty _ _ | addTree _ | nodeFor _ _ | addSource _ _ _ | setRequired _ _ | addGroup _ | rejectGroupJoin _
  | mergeGroups _ _ | addKeyJoin _ _ _ _ | addHashTable _ | addBloomFilter _ | duplicate _ => inferInstanceAs (Decidable False)

/-- An operation borrows no join exactly if it joins with the parent join of the table of the child. -/
theorem not_borrows_iff (st : Context × Supply) (op : Operation) :
    ¬op.Borrows st ↔ op.Links (fun join _ child => child.parentJoin? = some join) st := by
  cases op with
  | addGroupJoin group parent child conditions join => simp only [Borrows, Links, not_and, ne_eq, not_not]
  | _ => exact iff_of_true id trivial

end Operation

namespace OrdersAndAddresses

open Catalog.Table.Shop

/-- The keys of the orders and of the addresses, both of which are stored beneath the customers. -/
def ordersKey : Catalog.Join := ⟨"customers_orders", customers, [("cid", "cid")]⟩

def addressesKey : Catalog.Join := ⟨"customers_addresses", customers, [("cid", "owner")]⟩

/-- Sources of the three tables, the customers in a group. -/
def sources : List Operation :=
  [.addTree none, .nodeFor ⟨0⟩ orders, .nodeFor ⟨0⟩ addresses, .addSource ⟨0⟩ "c" true, .addSource ⟨1⟩ "o" true,
    .addSource ⟨2⟩ "a" true, .addGroup ⟨0⟩]

/-- The orders are joined to the customers along the key of the addresses. -/
def borrowed : List Operation := sources ++ [.addGroupJoin ⟨0⟩ ⟨0⟩ ⟨1⟩ [] addressesKey]

/-- Both tables are joined along their own keys, one join is rejected, and the group is copied. -/
def joined : List Operation :=
  sources ++ [.addGroupJoin ⟨0⟩ ⟨0⟩ ⟨1⟩ [] ordersKey, .addGroupJoin ⟨0⟩ ⟨0⟩ ⟨2⟩ [] addressesKey, .rejectGroupJoin ⟨0⟩,
    .duplicate [.entity ⟨.group, ⟨0⟩⟩]]

/-- The context that operations lead to. -/
def after (ops : List Operation) : Context := (ops.foldl Operation.apply (Context.withConfig {}, {})).1

theorem reached_borrowed : Reached (after borrowed) {} := reached_of_run {} borrowed (by decide +kernel)

end OrdersAndAddresses

open OrdersAndAddresses Catalog.Table.Shop in
/-- Group joins need not run along the keys of their children, although all keys are of tables of the catalog. -/
theorem not_ownJoins_of_borrowed : ¬∀ (T : Catalog.Table → Prop) (ctx : Context) (supply : Supply),
    Catalog.Table.Identified T → Reached ctx supply → ctx.TablesIn T →
      (ctx.Links fun join _ _ => ∃ t, T t ∧ t.parentJoin? = some join) → ctx.OwnJoins := by
  intro h
  have hkeys : (after borrowed).Links fun join _ _ => ∃ t, t ∈ tables ∧ t.parentJoin? = some join := by decide +kernel
  have hown := h (· ∈ tables) (after borrowed) {} identified_tables reached_borrowed (by decide +kernel) hkeys ⟨0⟩ _ rfl
  exact absurd hown (by decide +kernel)

/-- The tables of parent and child are parent and child in the catalog in all states of a run, and all group joins run along
the keys of their children in all states exactly if no operation adds one along another key. -/
theorem ownJoins_iff_of_run (config : Config) (ops : List Operation)
    (hv : Along Operation.apply (fun st op => op.Valid st) (Context.withConfig config, {}) ops) :
    Throughout Operation.apply (fun st => ∀ T, Catalog.Table.Identified T → st.1.TablesIn T →
        st.1.Links fun join parent child => child.parent? = some parent ∧ (T join.parent → join.parent = parent))
        (Context.withConfig config, {}) ops ∧
      (Throughout Operation.apply (fun st => st.1.OwnJoins) (Context.withConfig config, {}) ops ↔
        Along Operation.apply (fun st op => ¬op.Borrows st) (Context.withConfig config, {}) ops) := by
  have hreached := hv.throughout (I := fun st => Reached st.1 st.2) (fun _ _ h hop => h.apply hop) (.start config)
  constructor
  · refine hreached.mono ?_
    intro st h T hT hctx
    exact h.parentTables hT hctx
  · refine throughout_iff_along (I := fun st => Reached st.1 st.2) (fun _ _ h hop => h.apply hop) ?_ hv (.start config)
      (Context.links_withConfig config)
    intro st op h hop hown
    rw [Operation.not_borrows_iff]
    exact Operation.links_apply_iff h.wellFormed hop hown

open OrdersAndAddresses in
/-- Orders and addresses have a join each, the copies of the joins too, and all run along the keys of their tables. -/
theorem ownJoins_of_orders_and_addresses :
    Along Operation.apply (fun st op => op.Valid st) (Context.withConfig {}, {}) joined ∧
      ((after joined).groupJoins.items.map (·.join)) = #[ordersKey, addressesKey, addressesKey] ∧
      Throughout Operation.apply (fun st => st.1.OwnJoins) (Context.withConfig {}, {}) joined :=
  ⟨by decide +kernel, by decide +kernel, (ownJoins_iff_of_run {} joined (by decide +kernel)).2.2 (by decide +kernel)⟩

end ClusterPlan
