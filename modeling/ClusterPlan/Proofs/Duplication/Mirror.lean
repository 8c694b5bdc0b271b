import ClusterPlan.Proofs.Context.Mirror
import ClusterPlan.Proofs.Duplication.Closure
import ClusterPlan.Proofs.Duplication.Identity
import ClusterPlan.Proofs.Duplication.Tending

/-!
# Trees mirror the hierarchy of tables in all contexts

A context is worked on by operations and by sessions, which may be open for as long as it takes: between two calls of a session
there can be any operations and calls of other sessions (`Workspace.Step`). If each tree is asked for tables of one hierarchy
only, and ids tell the tables apart, the trees mirror the hierarchies at any time (`mirrored_of_run`). The invariant is that the
context is tidy and holds what the open sessions have noted.
-/

namespace ClusterPlan

open Duplication

variable {T : Catalog.Table → Prop}

/-! ## Calls -/

namespace Duplication

variable {s : Duplication}

/-- A session is tended with respect to the context that it is resumed on. -/
theorem Tended.resume {ctx : Context} {supply : Supply} (h : ctx.Tidy T []) (hs : (s.resume ctx supply).Noted) :
    Tended T ctx [] (s.resume ctx supply) :=
  ⟨h, hs, .refl ctx⟩

/-- A call keeps the context tidy and what is noted there. -/
theorem Tended.call (h : Tended T s.ctx [] s) {c : Call} (hc : c.Valid s) : Tended T s.ctx [] (c.apply s) := by
  refine (Call.keeps (keepsCall_tended fun ref href => ?_) h).1
  cases c with
  | entity ref' =>
    cases href
    exact hc
  | _ => cases href

theorem Tended.copy (h : Tended T s.ctx [] s) {x : Subject} (hx : ∀ ref, .entity ref ∈ x.mentions → s.ctx.Has ref.2) :
    Tended T s.ctx [] (x.copy s).2 := by
  have hcalls : ∀ m ∈ x.mentions, KeepsCall (Tended T s.ctx []) m := by
    rintro m hm
    refine keepsCall_tended fun ref href => hx ref ?_
    rwa [← href]
  cases x with
  | plan p => exact (p.visits_copy _ hcalls s h).1
  | expr e => exact (e.visits_copy _ hcalls s h).1

theorem Tended.calls {input : Context} (h : Tended T input [] s) {calls : List Call}
    (hc : Along Call.apply (fun s c => c.Valid s) s calls) : Tended T input [] (calls.foldl Call.apply s) := by
  refine (hc.throughout (I := Tended T input []) (fun s c hs hc => ?_) h).last
  have hcall := Tended.call ⟨hs.tidy, hs.noted, .refl s.ctx⟩ hc
  exact ⟨hcall.tidy, hcall.noted, hs.kept.trans hcall.kept⟩

/-- At the start of a session nothing is noted. -/
theorem noted_start (ctx : Context) (supply : Supply) : Noted { ctx, supply } := by
  intro kind hn a ha
  cases kind with
  | node => exact absurd rfl hn
  | _ => cases ha

end Duplication

/-! ## Operations -/

namespace Operation

/-- A tree is asked for a table of the hierarchy that its tables are of. -/
def Suits (T : Catalog.Table → Prop) (ctx : Context) : Operation → Prop
  | nodeFor tree table => T table ∧ ∀ a ∈ ctx.tablesOf tree, a.SameHierarchy table
  | _ => True

instance [DecidablePred T] (ctx : Context) : (op : Operation) → Decidable (op.Suits T ctx)
  | nodeFor tree table =>
    have : Decidable (∀ a ∈ ctx.tablesOf tree, a.SameHierarchy table) := List.decidableBAll _ _
    inferInstanceAs (Decidable (T table ∧ ∀ a ∈ ctx.tablesOf tree, a.SameHierarchy table))
  | draw | setProperty _ _ | addTree _ | addSource _ _ _ | setRequired _ _ | addGroup _ | addGroupJoin _ _ _ _ _
  | rejectGroupJoin _ | mergeGroups _ _ | addKeyJoin _ _ _ _ | addHashTable _ | addBloomFilter _ | duplicate _ =>
    inferInstanceAs (Decidable True)

/-- Operations that make trees or nodes or place sources. -/
def Places : Operation → Prop
  | addTree _ | nodeFor _ _ | addSource _ _ _ | duplicate _ => True
  | _ => False

/-- Operations that place nothing leave all places. -/
theorem samePlaces_apply (st : Context × Supply) {op : Operation} (hp : ¬op.Places) : st.1.SamePlaces (apply st op).1 := by
  cases op with
  | addTree _ | nodeFor _ _ | addSource _ _ _ | duplicate _ => exact absurd trivial hp
  | draw => exact .refl st.1
  | setProperty name value =>
    exact Context.samePlaces_of_arenas rfl rfl rfl fun kind r hr => by cases kind <;> exact hr
  | setRequired source required => exact Context.samePlaces_setRequired st.1 source required
  | addGroup first => exact Context.samePlaces_addGroup st.1 first
  | addGroupJoin group parent child conditions join =>
    rcases addGroupJoin_cases st group parent child conditions join with ⟨r, hok, heq⟩ | ⟨-, heq⟩
    · rw [heq]
      exact Context.samePlaces_addGroupJoin hok
    · rw [heq]
      exact .refl st.1
  | rejectGroupJoin id => exact Context.samePlaces_rejectGroupJoin st.1 id
  | mergeGroups into other => exact Context.samePlaces_mergeGroups st.1 into other
  | addKeyJoin parent child conditions foreignKey =>
    exact @Context.samePlaces_insert .keyJoin st.1 { parent, child, conditions, foreignKey } (by simp) (by simp) (by simp)
  | addHashTable t => exact @Context.samePlaces_insert .hashTable st.1 t (by simp) (by simp) (by simp)
  | addBloomFilter f => exact @Context.samePlaces_insert .bloomFilter st.1 f (by simp) (by simp) (by simp)

/-- Operations on what is there keep a context well-formed. -/
theorem wellFormed_apply {st : Context × Supply} (hwf : st.1.WellFormed) {op : Operation} (hv : op.Valid st) :
    (apply st op).1.WellFormed := by
  cases op with
  | draw => exact hwf
  | setProperty name value => exact hwf.setProperty name value
  | addTree group => exact hwf.addTree group
  | nodeFor tree table => exact (hwf.nodeFor hv table).1
  | addSource node name required => exact hwf.addSource hv name required
  | setRequired source required => exact hwf.setRequired hv required
  | addGroup first => exact hwf.addGroup hv
  | addGroupJoin group parent child conditions join =>
    rcases addGroupJoin_cases st group parent child conditions join with ⟨r, hok, heq⟩ | ⟨-, heq⟩
    · rw [heq]
      exact hwf.addGroupJoin hv.1 hv.2.1 hv.2.2 hok
    · rwa [heq]
  | rejectGroupJoin id => exact hwf.rejectGroupJoin hv
  | mergeGroups into other => exact hwf.mergeGroups hv.1 hv.2
  | addKeyJoin parent child conditions foreignKey => exact hwf.addKeyJoin hv.1 hv.2 conditions foreignKey
  | addHashTable t => exact hwf.addHashTable t
  | addBloomFilter f => exact hwf.addBloomFilter f
  | duplicate calls => exact ((session_of_along hv).inSession hwf).wellFormed

/-- An operation keeps a context tidy, and nothing is gone. -/
theorem tidy_apply (hT : Catalog.Table.Identified T) {st : Context × Supply} (h : st.1.Tidy T []) {op : Operation}
    (hv : op.Valid st) (hs : op.Suits T st.1) :
    (apply st op).1.Tidy T [] ∧ ∀ ⦃kind : EntityKind⦄ (r : Ref kind), st.1.Has r → (apply st op).1.Has r := by
  by_cases hp : op.Places
  · cases op with
    | addTree group => exact ⟨h.addTree group, fun kind r hr => @Context.Has.insert .tree kind st.1 r hr { group }⟩
    | nodeFor tree table => exact ⟨h.nodeFor hT hv hs.1 hs.2, fun _ _ hr => Context.has_nodeFor hr table⟩
    | addSource node name required =>
      exact ⟨h.addSource hv name required, fun _ _ hr => Context.has_addSource hr node name required⟩
    | duplicate calls =>
      have hcalls := Tended.calls ⟨h, noted_start st.1 st.2, .refl st.1⟩ hv
      exact ⟨hcalls.tidy, fun _ _ hr => hcalls.has hr⟩
    | _ => exact absurd hp id
  · have hsame := samePlaces_apply st hp
    exact ⟨h.of_samePlaces hsame (wellFormed_apply h.wellFormed hv), hsame.grows⟩

end Operation

/-! ## Runs -/

/-- A context that is worked on, with the supply of numbers and the open sessions. -/
structure Workspace where
  ctx : Context
  supply : Supply := {}
  sessions : List Duplication := []

namespace Workspace

/-- The workspace after an operation. -/
def operate (w : Workspace) (op : Operation) : Workspace :=
  { w with ctx := (op.apply (w.ctx, w.supply)).1, supply := (op.apply (w.ctx, w.supply)).2 }

/-- The workspace with one more session. -/
def begin (w : Workspace) : Workspace := { w with sessions := { ctx := w.ctx, supply := w.supply } :: w.sessions }

/-- The workspace after a session did something. -/
def proceed (s : Duplication) (rest : List Duplication) : Workspace := ⟨s.ctx, s.supply, s :: rest⟩

/-- One step of the work on a context. Each tree is asked for tables of one hierarchy, and what is copied is there. -/
inductive Step (T : Catalog.Table → Prop) : Workspace → Workspace → Prop where
  | operate {w : Workspace} (op : Operation) :
      op.Valid (w.ctx, w.supply) → op.Suits T w.ctx → Step T w (w.operate op)
  | begin {w : Workspace} : Step T w w.begin
  /-- A session is called for an entity or a number. -/
  | call {w : Workspace} {s : Duplication} {rest : List Duplication} (c : Call) :
      w.sessions.Perm (s :: rest) → c.Valid (s.resume w.ctx w.supply) →
      Step T w (proceed (c.apply (s.resume w.ctx w.supply)) rest)
  /-- A plan or an expression is copied in a session. -/
  | copy {w : Workspace} {s : Duplication} {rest : List Duplication} (x : Subject) :
      w.sessions.Perm (s :: rest) → (∀ ref, .entity ref ∈ x.mentions → w.ctx.Has ref.2) →
      Step T w (proceed (x.copy (s.resume w.ctx w.supply)).2 rest)
  /-- A session ends. -/
  | finish {w : Workspace} {s : Duplication} {rest : List Duplication} :
      w.sessions.Perm (s :: rest) → Step T w { w with sessions := rest }

variable {w w' : Workspace}

/-- The context is tidy, and it holds what the open sessions have noted. -/
structure Tended (T : Catalog.Table → Prop) (w : Workspace) : Prop where
  tidy : w.ctx.Tidy T []
  noted : ∀ s ∈ w.sessions, (s.resume w.ctx w.supply).Noted

/-- What a session has noted is still there when the context has grown. -/
theorem noted_resume {s : Duplication} {ctx ctx' : Context} {supply : Supply} (h : (s.resume ctx supply).Noted)
    (hgrows : ∀ ⦃kind : EntityKind⦄ (r : Ref kind), ctx.Has r → ctx'.Has r) (supply' : Supply) :
    (s.resume ctx' supply').Noted :=
  h.of_same (fun kind hn => by cases kind <;> first | rfl | exact absurd rfl hn) hgrows

/-- A session goes on. -/
theorem Tended.proceed (h : w.Tended T) {s s' : Duplication} {rest : List Duplication} (hsessions : w.sessions.Perm (s :: rest))
    (hs : (s.resume w.ctx w.supply).Tended T w.ctx [] → s'.Tended T w.ctx []) : (proceed s' rest).Tended T := by
  have hmem : ∀ o ∈ s :: rest, (o.resume w.ctx w.supply).Noted := fun o ho => h.noted o (hsessions.mem_iff.2 ho)
  have hs' := hs (.resume h.tidy (hmem s List.mem_cons_self))
  refine ⟨hs'.tidy, fun o ho => ?_⟩
  rcases List.mem_cons.1 ho with rfl | ho
  · exact hs'.noted
  · exact noted_resume (hmem o (List.mem_cons_of_mem s ho)) (fun _ _ hr => hs'.has hr) _

/-- Each step keeps the context tidy and what the open sessions have noted. -/
theorem Step.tended (hT : Catalog.Table.Identified T) (hstep : Step T w w') (h : w.Tended T) : w'.Tended T := by
  cases hstep with
  | operate op hv hs =>
    obtain ⟨htidy, hgrows⟩ := Operation.tidy_apply hT h.tidy hv hs
    exact ⟨htidy, fun s hmem => noted_resume (h.noted s hmem) hgrows _⟩
  | begin =>
    refine ⟨h.tidy, fun s hmem => ?_⟩
    rcases List.mem_cons.1 hmem with rfl | hmem
    · exact noted_start w.ctx w.supply
    · exact h.noted s hmem
  | call c hsessions hc => exact h.proceed hsessions fun hs => hs.call hc
  | @copy s rest x hsessions hx =>
    exact h.proceed hsessions fun hs => @Duplication.Tended.copy T (s.resume w.ctx w.supply) hs x hx
  | finish hsessions => exact ⟨h.tidy, fun s hmem => h.noted s (hsessions.mem_iff.2 (List.mem_cons_of_mem _ hmem))⟩

theorem tended_of_run (hT : Catalog.Table.Identified T) {config : Config}
    (hrun : Relation.ReflTransGen (Step T) { ctx := .withConfig config } w) : w.Tended T := by
  induction hrun with
  | refl => exact ⟨Context.tidy_withConfig T config, fun s hs => absurd hs List.not_mem_nil⟩
  | tail _ hstep ih => exact hstep.tended hT ih

end Workspace

/-- Whatever was done to a context, and while sessions are open as well as afterwards: if ids tell tables apart and each tree
was asked for tables of one hierarchy, the trees mirror the hierarchies. A tree has at most one node for a table, which comes
after its parent, the node of the parent table; the root is the node without a parent; the children of a node are in the order
of their ordinals; the uses of a node are the sources on it; and a node is above another one exactly if its table is above the
other table. -/
theorem mirrored_of_run (hT : Catalog.Table.Identified T) {config : Config} {w : Workspace}
    (hrun : Relation.ReflTransGen (Workspace.Step T) { ctx := .withConfig config } w) : w.ctx.Mirrored :=
  (Workspace.tended_of_run hT hrun).tidy.mirrored hT

namespace CustomersAtWork

def customers : Catalog.Table := .root ⟨1, "customers", 0, []⟩

def orders : Catalog.Table := .child ⟨2, "orders", 2, []⟩ [] customers

def addresses : Catalog.Table := .child ⟨3, "addresses", 1, []⟩ [] customers

def tables : List Catalog.Table := [customers, orders, addresses]

theorem identified_tables : Catalog.Table.Identified (· ∈ tables) := by
  have hids : ∀ a ∈ tables, ∀ b ∈ tables, a.id = b.id → a = b := by decide +kernel
  have hparents : ∀ a ∈ tables, ∀ p ∈ a.parent?, p ∈ tables := by decide +kernel
  exact ⟨fun a b ha hb => hids a ha b hb, fun a p ha hp => hparents a ha p hp⟩

/-- A tree for the orders. -/
def planted : Workspace := (({ ctx := .withConfig {} } : Workspace).operate (.addTree none)).operate (.nodeFor ⟨0⟩ orders)

/-- A session is open. -/
def opened : Workspace := (planted.operate (.addSource ⟨1⟩ "o" true)).begin

def session : Duplication := { ctx := opened.ctx, supply := opened.supply }

/-- The session copied the source of the orders with the tree. -/
def copied : Workspace :=
  .proceed ((Call.entity ⟨.source, ⟨0⟩⟩).apply (session.resume opened.ctx opened.supply)) []

/-- Both trees got a node for the addresses while the session was open. -/
def grown : Workspace := (copied.operate (.nodeFor ⟨1⟩ addresses)).operate (.nodeFor ⟨0⟩ addresses)

open Relation in
/-- The trees can be brought to the point where both got a node for the addresses. -/
theorem run_grown : ReflTransGen (Workspace.Step (· ∈ tables)) { ctx := .withConfig {} } grown := by
  have hplanted : ReflTransGen (Workspace.Step (· ∈ tables)) { ctx := .withConfig {} } planted :=
    .tail (.single (.operate (.addTree none) trivial trivial)) (.operate (.nodeFor ⟨0⟩ orders) (by decide) (by decide))
  have hopened : ReflTransGen (Workspace.Step (· ∈ tables)) { ctx := .withConfig {} } opened :=
    .tail (hplanted.tail (.operate (.addSource ⟨1⟩ "o" true) (by decide) trivial)) .begin
  have hcopied : ReflTransGen (Workspace.Step (· ∈ tables)) { ctx := .withConfig {} } copied :=
    hopened.tail (.call (.entity ⟨.source, ⟨0⟩⟩) (.refl _) (by decide))
  exact .tail (hcopied.tail (.operate (.nodeFor ⟨1⟩ addresses) (by decide +kernel) (by decide +kernel)))
    (.operate (.nodeFor ⟨0⟩ addresses) (by decide +kernel) (by decide +kernel))

end CustomersAtWork

open CustomersAtWork in
/-- The copied tree got its node for the addresses before the tree that it was copied from, and it stands before the orders. -/
theorem mirrored_of_customers_at_work :
    Catalog.Table.Identified (· ∈ tables) ∧
      Relation.ReflTransGen (Workspace.Step (· ∈ tables)) { ctx := .withConfig {} } grown ∧
      (grown.ctx.trees.get ⟨1⟩).nodes = [⟨2⟩, ⟨3⟩, ⟨4⟩] ∧ (grown.ctx.nodes.get ⟨2⟩).children = [⟨4⟩, ⟨3⟩] ∧
      (grown.ctx.nodes.get ⟨3⟩).uses = [⟨1⟩] ∧ grown.ctx.Mirrored :=
  ⟨identified_tables, run_grown, by decide +kernel, by decide +kernel, by decide +kernel,
    mirrored_of_run identified_tables run_grown⟩

end ClusterPlan
