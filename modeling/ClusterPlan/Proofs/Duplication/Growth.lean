import ClusterPlan.Proofs.Duplication.Courses
import ClusterPlan.Proofs.Duplication.Mirror
import ClusterPlan.Proofs.Duplication.Repeated

/-!
# Trees that grow while a session is open

A session copies a tree once, and it finds the copy of a node at the place that the node has in the list of its tree now. Both
lists can get longer in the meantime. All nodes are found exactly if the tables of each copied tree are the first tables of its
copy, in the same order (`findsNodes_iff_inStep`). A tree that is asked for a table is the only thing that can break this, so it
holds all along a run exactly if no copied tree gets a node for a table that its copy does not have in the same place already
(`findsNodes_iff_of_run`). Sources may be placed at any time, copies may grow at any time, and so may trees that are not copied
yet.
-/

namespace ClusterPlan

open Duplication

/-! ## What operations do to trees -/

namespace Operation

/-- The tables that a tree gets nodes for in an operation. -/
def planted (ctx : Context) (t : TreeId) : Operation → List Catalog.Table
  | nodeFor tree table => if t = tree then ctx.missing tree table else []
  | _ => []

/-- Nothing is gone after an operation, and trees get nodes at the end of their lists if at all. -/
theorem grows_apply {st : Context × Supply} (hwf : st.1.WellFormed) {op : Operation} (hv : op.Valid st) :
    (∀ ⦃kind : EntityKind⦄ (r : Ref kind), st.1.Has r → (apply st op).1.Has r) ∧
      ∀ t : TreeId, st.1.Has t → (apply st op).1.tablesOf t = st.1.tablesOf t ++ op.planted st.1 t := by
  have hwf' := wellFormed_apply hwf hv
  by_cases hp : op.Places
  · cases op with
    | addTree group =>
      have hold : ∀ ⦃kind : EntityKind⦄ (r : Ref kind), st.1.Has r → (st.1.addTree group).2.record? r = st.1.record? r :=
        fun kind r hr => @Context.record?_insert_of_has .tree kind st.1 r { group } hr
      refine ⟨fun kind r hr => @Context.Has.insert .tree kind st.1 r hr { group }, fun t ht => ?_⟩
      refine (Context.tablesOf_congr (hold t ht) fun n hn => ?_).trans (List.append_nil _).symm
      exact congrArg TableNode.table (Arena.get_congr (hold n (hwf.has_node (Context.record?_get_tree ht) hn)))
    | nodeFor tree table =>
      exact ⟨fun _ _ hr => Context.has_nodeFor hr table, fun t ht => Context.tablesOf_nodeFor hwf hv table ht⟩
    | addSource node name required =>
      have hsame : st.1.SameTrees (st.1.addSource node name required).2 := by
        rw [Context.addSource_eq]
        exact (@Context.sameTrees_withArena .source st.1 _ (by simp) (by simp)).trans
          (Context.sameTrees_addUse _ node _)
      have hgrows : ∀ ⦃kind : EntityKind⦄ (r : Ref kind), st.1.Has r → (st.1.addSource node name required).2.Has r :=
        fun _ _ hr => Context.has_addSource hr node name required
      exact ⟨hgrows, fun t ht => (Context.tablesOf_of_sameTrees hwf' hsame (hgrows t ht)).trans (List.append_nil _).symm⟩
    | duplicate calls =>
      have hstart : Duplication.Sound { ctx := st.1, supply := st.2 } := ⟨hwf, noted_start st.1 st.2⟩
      obtain ⟨-, hleads⟩ := hstart.calls hv
      exact ⟨hleads.has, fun t ht => (hleads.tables t ht).trans (List.append_nil _).symm⟩
    | _ => exact absurd hp id
  · have hsame := samePlaces_apply st hp
    have hplanted : ∀ t, op.planted st.1 t = [] := by
      intro t
      cases op with
      | nodeFor tree table => exact absurd trivial hp
      | _ => rfl
    refine ⟨hsame.grows, fun t ht => ?_⟩
    rw [hplanted, List.append_nil]
    exact Context.tablesOf_of_sameTrees hwf' hsame.sameTrees (hsame.grows t ht)

end Operation

namespace Duplication

variable {s s' : Duplication}

/-! ## Finding nodes -/

/-- The place of a node in the list of its tree is a place in the list of the copied tree; there is no answer beyond its end. The
answer is the node that stands there; it is in the copied tree, for the table that the node is for. -/
def FindsNode (s : Duplication) (n : NodeId) : Prop :=
  let old := (s.ctx.nodes.get n).tree
  let new := (tree old s).1
  let ctx := (node n s).2.ctx
  ∃ i, (ctx.trees.get old).position? n = some i ∧ (ctx.trees.get new).nodes[i]? = some (node n s).1 ∧
    (ctx.nodes.get (node n s).1).tree = new ∧ (ctx.nodes.get (node n s).1).table = (s.ctx.nodes.get n).table

/-- The next call finds all the nodes that it asks for, whatever it did before it asks. -/
def FindsNodes (s : Duplication) : Prop :=
  ∀ s', s.Leads s' → s'.Sound → ∀ n : NodeId, s'.ctx.Has n → s'.FindsNode n

/-- The tables of each copied tree are the first tables of its copy. -/
def InStep (s : Duplication) : Prop :=
  ∀ old new, s.trees.lookup old = some new → s.ctx.tablesOf old <+: s.ctx.tablesOf new

/-- Calls of a session keep the tables of trees and their copies in step. -/
theorem InStep.of_leads (h : s.InStep) (hs : s.Sound) (hleads : s.Leads s') : s'.InStep := by
  intro old new hl
  rcases hleads.copied old new hl with hl | ⟨-, -, heq⟩
  · obtain ⟨hold, hnew⟩ := @hs.noted .tree (by simp) _ (mem_of_lookup hl)
    rw [hleads.tables old hold, hleads.tables new hnew]
    exact h old new hl
  · simp only [heq, List.prefix_refl]

/-- After the call for a tree its copy is found. -/
theorem lookup_tree (old : TreeId) (s : Duplication) : (tree old s).2.trees.lookup old = some (tree old s).1 := by
  rw [tree_eq]
  cases hl : s.trees.lookup old with
  | some new => exact hl
  | none => exact List.lookup_cons_self

/-- For a node that its tree lists, the call for the node does what the call for the tree does. -/
theorem node_snd_of_place {n : NodeId} (hs : s.Sound) (hn : s.ctx.Has n) :
    (node n s).2 = (tree (s.ctx.nodes.get n).tree s).2 := by
  obtain ⟨-, i, hi, -⟩ := hs.exists_place hn
  rw [hs.node_eq_getD hn hi]

/-- If the tables of copies are in step, the table of a node stands at its place in the copied tree. -/
theorem findsNode_of_inStep (hs : s.Sound) (h : s.InStep) {n : NodeId} (hn : s.ctx.Has n) : s.FindsNode n := by
  obtain ⟨ht, i, hi, hlisted⟩ := hs.exists_place hn
  obtain ⟨hs₁, hleads, hnew⟩ := serves_tree _ s hs ht
  have hprefix := h.of_leads hs hleads _ _ (lookup_tree (s.ctx.nodes.get n).tree s)
  rw [hleads.tables _ ht] at hprefix
  have htable : (s.ctx.tablesOf (s.ctx.nodes.get n).tree)[i]? = some (s.ctx.nodes.get n).table := by
    rw [Context.getElem?_tablesOf, hlisted, Option.map_some]
  have hcopied := List.prefix_iff_getElem?.1 hprefix i (List.getElem?_eq_some_iff.1 htable).1
  rw [(List.getElem?_eq_some_iff.1 htable).2, Context.getElem?_tablesOf, Option.map_eq_some_iff] at hcopied
  obtain ⟨m, hm, hmtable⟩ := hcopied
  have hnode : node n s = (m, (tree (s.ctx.nodes.get n).tree s).2) := by
    rw [hs.node_eq_getD hn hi, hm, Option.getD_some]
  have hmem := List.mem_of_getElem? hm
  have hrecord := hs₁.wellFormed.record?_get (Context.record?_get_tree hnew) hmem
  rw [FindsNode, hnode]
  refine ⟨i, ?_, hm, hs₁.wellFormed.shaped.own _ _ m _ (Context.record?_get_tree hnew) hmem hrecord, hmtable⟩
  rw [get_tree_of_has _ s ht]
  exact hi

/-- And if all nodes are found, the tables of copies are in step. -/
theorem inStep_of_findsNode (hs : s.Sound) (h : ∀ n : NodeId, s.ctx.Has n → s.FindsNode n) : s.InStep := by
  intro old new hl
  obtain ⟨hold, hnew⟩ := @hs.noted .tree (by simp) _ (mem_of_lookup hl)
  have htree : tree old s = (new, s) := by rw [tree_eq, hl]
  refine List.prefix_iff_getElem?.2 fun i hi => ?_
  have hlt : i < (s.ctx.trees.get old).nodes.length := by rwa [Context.tablesOf, TableTree.tables, List.length_map] at hi
  have hmem := List.getElem_mem hlt
  have hrecord := Context.record?_get_tree hold
  have hown := hs.wellFormed.shaped.own old _ _ _ hrecord hmem (hs.wellFormed.record?_get hrecord hmem)
  obtain ⟨j, hj, hm, -, htable⟩ := h _ (hs.wellFormed.has_node hrecord hmem)
  rw [node_snd_of_place hs (hs.wellFormed.has_node hrecord hmem), hown, htree] at hj hm htable
  -- a node stands in one place of the list only
  obtain ⟨hjlt, heq, -⟩ := List.findIdx?_eq_some_iff_getElem.1 hj
  obtain rfl : j = i := (hs.wellFormed.shaped.distinct old _ hrecord).getElem_inj_iff.1 (by simpa using heq)
  rw [Context.getElem?_tablesOf, hm, Option.map_some, htable]
  simp [Context.tablesOf, TableTree.tables]

/-- All nodes are found exactly if the tables of copies are in step. -/
theorem findsNodes_iff_inStep (hs : s.Sound) : s.FindsNodes ↔ s.InStep :=
  ⟨fun h => inStep_of_findsNode hs fun n hn => h s (.refl s) hs n hn,
    fun h _ hleads hs' _ hn => findsNode_of_inStep hs' (h.of_leads hs hleads) hn⟩

/-! ## Runs -/

/-- The calls for what is mentioned keep a session in order. -/
theorem Sound.mentions (hs : s.Sound) (ms : List Mention) (hms : ∀ ref, .entity ref ∈ ms → s.ctx.Has ref.2) :
    (ms.mapM Mention.copy s).2.Sound ∧ s.Leads (ms.mapM Mention.copy s).2 := by
  induction ms generalizing s with
  | nil => exact ⟨hs, .refl s⟩
  | cons m ms ih =>
    have hcall : (m.copy s).2.Sound ∧ s.Leads (m.copy s).2 := by
      cases m with
      | planNode id => exact hs.copyNumber id
      | column id => exact hs.nodeNumber id
      | condition c => exact hs.condition c
      | entity ref =>
        obtain ⟨h₁, hleads, -⟩ := serves_entity ref.1 ref.2 s hs (hms ref List.mem_cons_self)
        exact ⟨h₁, hleads⟩
    obtain ⟨h₁, hleads₁⟩ := hcall
    obtain ⟨h₂, hleads₂⟩ := ih h₁ fun ref href => hleads₁.has ref.2 (hms ref (List.mem_cons_of_mem m href))
    rw [mapM_copy_cons]
    exact ⟨h₂, hleads₁.trans hleads₂⟩

/-- So does the copy of a plan or an expression, which makes these calls. -/
theorem Sound.copy (hs : s.Sound) (x : Subject) (hx : ∀ ref, .entity ref ∈ x.mentions → s.ctx.Has ref.2) :
    (x.copy s).2.Sound ∧ s.Leads (x.copy s).2 := by
  have hcalls := hs.mentions x.mentions hx
  have hstate : (x.copy s).2 = (x.mentions.mapM Mention.copy s).2 := by
    cases x with
    | plan p => exact (p.answers_copy s).1
    | expr e => exact (e.answers_copy s).1
  rwa [hstate]

/-- What is done while a session is open: an operation on its context, which may be a whole other session, a call of the session,
or a copy of a plan or an expression in it. -/
inductive Move where
  | operate (op : Operation)
  | call (c : Call)
  | copy (x : Subject)

namespace Move

def apply (s : Duplication) : Move → Duplication
  | operate op => s.resume (op.apply (s.ctx, s.supply)).1 (op.apply (s.ctx, s.supply)).2
  | call c => c.apply s
  | copy x => (x.copy s).2

/-- What is worked on or copied is there. -/
def Valid (s : Duplication) : Move → Prop
  | operate op => op.Valid (s.ctx, s.supply)
  | call c => c.Valid s
  | copy x => ∀ ref, .entity ref ∈ x.mentions → s.ctx.Has ref.2

instance (s : Duplication) (op : Operation) : Decidable ((operate op).Valid s) :=
  inferInstanceAs (Decidable (op.Valid (s.ctx, s.supply)))

instance (s : Duplication) (c : Call) : Decidable ((call c).Valid s) := inferInstanceAs (Decidable (c.Valid s))

/-- A copied tree gets nodes for tables that do not stand in the same places of its copy. -/
def Outgrows (s : Duplication) : Move → Prop
  | operate (.nodeFor tree table) => ∃ new, s.trees.lookup tree = some new ∧ new ≠ tree ∧
      ¬s.ctx.tablesOf tree ++ s.ctx.missing tree table <+: s.ctx.tablesOf new
  | _ => False

/-- No move puts a session out of order. -/
theorem sound_apply (hs : s.Sound) {m : Move} (hv : m.Valid s) : (m.apply s).Sound := by
  cases m with
  | operate op =>
    have hgrows := (@Operation.grows_apply (s.ctx, s.supply) hs.wellFormed op hv).1
    exact ⟨@Operation.wellFormed_apply (s.ctx, s.supply) hs.wellFormed op hv, Workspace.noted_resume hs.noted hgrows _⟩
  | call c => exact (hs.call hv).1
  | copy x => exact (hs.copy x hv).1

/-- An operation between the calls keeps trees and copies in step exactly if no copied tree gains a table by it. -/
theorem inStep_operate_iff (hs : s.Sound) (h : s.InStep) {op : Operation} (hv : op.Valid (s.ctx, s.supply)) :
    ((operate op).apply s).InStep ↔ ¬(operate op).Outgrows s := by
  have htables := (@Operation.grows_apply (s.ctx, s.supply) hs.wellFormed op hv).2
  have hiff : ((operate op).apply s).InStep ↔ ∀ old new, s.trees.lookup old = some new →
      s.ctx.tablesOf old ++ op.planted s.ctx old <+: s.ctx.tablesOf new ++ op.planted s.ctx new := by
    refine forall₂_congr fun old new => imp_congr_right fun hl => ?_
    obtain ⟨hold, hnew⟩ := @hs.noted .tree (by simp) _ (mem_of_lookup hl)
    rw [← htables old hold, ← htables new hnew]
    rfl
  rw [hiff]
  cases op with
  | nodeFor tree table =>
    constructor
    · rintro hall ⟨new, hl, hne, hbreaks⟩
      have hprefix := hall tree new hl
      rw [Operation.planted, Operation.planted, if_pos rfl, if_neg hne, List.append_nil] at hprefix
      exact hbreaks hprefix
    · intro hkeeps old new hl
      rw [Operation.planted, Operation.planted]
      by_cases hold : old = tree
      · subst hold
        by_cases hnew : new = old
        · subst hnew
          exact List.prefix_refl _
        · rw [if_pos rfl, if_neg hnew, List.append_nil]
          exact Decidable.not_not.1 fun hbreaks => hkeeps ⟨new, hl, hnew, hbreaks⟩
      · rw [if_neg hold, List.append_nil]
        exact (h old new hl).trans (List.prefix_append _ _)
  | _ =>
    refine iff_of_true (fun old new hl => ?_) id
    exact (List.append_nil _).symm ▸ (List.append_nil _).symm ▸ h old new hl

/-- A move keeps trees and copies in step exactly if no copied tree gains a table by it. -/
theorem inStep_apply_iff (hs : s.Sound) (h : s.InStep) {m : Move} (hv : m.Valid s) : (m.apply s).InStep ↔ ¬m.Outgrows s := by
  cases m with
  | operate op => exact inStep_operate_iff hs h hv
  | call c => exact iff_of_true (h.of_leads hs (hs.call hv).2) id
  | copy x => exact iff_of_true (h.of_leads hs (hs.copy x hv).2) id

end Move

end Duplication

/-- While a session is open, its context can be worked on in any way. The session finds all nodes at any time, each in the copy of
its tree and for its table, exactly if no copied tree gets nodes for tables that do not stand in the same places of the copy. -/
theorem findsNodes_iff_of_run {ctx : Context} {supply : Supply} (hctx : Reached ctx supply) {moves : List Move}
    (hmoves : Along Move.apply Move.Valid { ctx, supply } moves) :
    Throughout Move.apply FindsNodes { ctx, supply } moves ↔
      Along Move.apply (fun s m => ¬m.Outgrows s) { ctx, supply } moves := by
  have hsound : Sound { ctx, supply } := ⟨hctx.wellFormed, noted_start ctx supply⟩
  have hfinds : FindsNodes { ctx, supply } := (findsNodes_iff_inStep hsound).2 fun _ _ hl => by cases hl
  refine throughout_iff_along (I := Sound) (fun s m hs hv => Move.sound_apply hs hv) (fun s m hs hv hP => ?_) hmoves hsound hfinds
  rw [findsNodes_iff_inStep (Move.sound_apply hs hv)]
  exact Move.inStep_apply_iff hs ((findsNodes_iff_inStep hs).1 hP) hv

namespace CustomersAtWork

/-- A tree for the customers. -/
def planned : Context × Supply := ((((Context.withConfig {}).addTree none).2.nodeFor ⟨0⟩ customers).2, {})

theorem reached_planned : Reached planned.1 planned.2 :=
  ((Reached.start {}).addTree none).nodeFor ⟨0⟩ customers (by decide)

/-- A session on it. -/
def working : Duplication := { ctx := planned.1, supply := planned.2 }

/-- The tree is copied. Then the copy gets a node for the orders, and after it the tree does. -/
def copyFirst : List Move :=
  [.call (.entity ⟨.tree, ⟨0⟩⟩), .operate (.nodeFor ⟨1⟩ orders), .operate (.nodeFor ⟨0⟩ orders)]

/-- The tree is copied. Then the tree gets a node for the orders, and the copy does not. -/
def originalAlone : List Move := [.call (.entity ⟨.tree, ⟨0⟩⟩), .operate (.nodeFor ⟨0⟩ orders)]

/-- The tree is copied. Then the copy gets a node for the addresses, and the tree one for the orders. -/
def apart : List Move :=
  [.call (.entity ⟨.tree, ⟨0⟩⟩), .operate (.nodeFor ⟨1⟩ addresses), .operate (.nodeFor ⟨0⟩ orders)]

end CustomersAtWork

open CustomersAtWork in
/-- A tree may grow as its copy has grown before. -/
theorem findsNodes_of_copy_grown_first :
    Reached planned.1 planned.2 ∧ Along Move.apply Move.Valid working copyFirst ∧
      Throughout Move.apply FindsNodes working copyFirst := by
  have hvalid : Along Move.apply Move.Valid working copyFirst := ⟨by decide, by decide, by decide, trivial⟩
  refine ⟨reached_planned, hvalid, (findsNodes_iff_of_run reached_planned hvalid).2 ⟨id, ?_, ?_, trivial⟩⟩
  · rintro ⟨new, hl, -⟩
    cases hl
  · rintro ⟨new, hl, -, hbreaks⟩
    cases hl
    exact hbreaks (by decide +kernel)

open CustomersAtWork in
/-- If the tree grows alone, the copied tree has no place for the node of the orders. If its copy has grown in another way, the
session answers with the node of the addresses. -/
theorem not_findsNode_of_original_grown :
    (Along Move.apply Move.Valid working originalAlone ∧
      ∃ s, s = originalAlone.foldl Move.apply working ∧ s.ctx.Has (⟨2⟩ : NodeId) ∧ (s.ctx.nodes.get ⟨2⟩).table = orders ∧
        s.trees.lookup ⟨0⟩ = some ⟨1⟩ ∧ (s.ctx.trees.get ⟨0⟩).position? ⟨2⟩ = some 1 ∧
        (s.ctx.trees.get ⟨1⟩).nodes[1]? = none) ∧
    Along Move.apply Move.Valid working apart ∧
      ∃ s, s = apart.foldl Move.apply working ∧ s.ctx.Has (⟨3⟩ : NodeId) ∧ (s.ctx.nodes.get ⟨3⟩).table = orders ∧
        ((node ⟨3⟩ s).2.ctx.nodes.get (node ⟨3⟩ s).1).table = addresses :=
  ⟨⟨⟨by decide, by decide, trivial⟩, _, rfl, by decide +kernel, by decide +kernel, by decide +kernel, by decide +kernel,
    by decide +kernel⟩, ⟨by decide, by decide, by decide, trivial⟩, _, rfl, by decide +kernel, by decide +kernel,
    by decide +kernel⟩

end ClusterPlan
