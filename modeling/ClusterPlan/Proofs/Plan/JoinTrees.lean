import ClusterPlan.Duplication.Plan
import ClusterPlan.Plan.Editing
import Mathlib.Data.List.Nodup
import Mathlib.Logic.Relation

/-!
# Join trees are trees

A join tree holds links to the first child and to the next sibling, which adding a child patches. The invariant is `Linked`: a
parent stands before its children, and the links from a node lead through exactly the nodes whose parent it is, in the order in
which they were added. With it the walk with a stack comes to an end and lists each node once, the part below a node in one
piece behind it (`ordered_of_isJoinTree`).
-/

namespace ClusterPlan

open Relation

namespace JoinTree

variable {nodes nodes' : List JoinTreeNode} {p i j : Nat}

/-- A node is the parent of another one. -/
def IsChild (nodes : List JoinTreeNode) (p i : Nat) : Prop := (nodes[i]?).bind (·.parent) = some p

instance (nodes : List JoinTreeNode) (p i : Nat) : Decidable (IsChild nodes p i) :=
  inferInstanceAs (Decidable (_ = _))

/-- The nodes that were added to a node, in this order. -/
def added (nodes : List JoinTreeNode) (p : Nat) : List Nat := (List.range nodes.length).filter (IsChild nodes p ·)

/-- The links from a node to its siblings behind it lead through some nodes and come to an end. -/
inductive Chain (nodes : List JoinTreeNode) : Option Nat → List Nat → Prop where
  | stop : Chain nodes none []
  | link {i : Nat} {n : JoinTreeNode} {l : List Nat} : nodes[i]? = some n → Chain nodes n.nextSibling l →
      Chain nodes (some i) (i :: l)

/-- The walk from a stack of nodes, the next one in front, visits some nodes and comes to an end. -/
inductive Traversal (nodes : List JoinTreeNode) : List Nat → List Nat → Prop where
  | stop : Traversal nodes [] []
  | visit {i : Nat} {stack visited : List Nat} : Traversal nodes (childrenOf nodes i ++ stack) visited →
      Traversal nodes (i :: stack) (i :: visited)

/-- The nodes of a join tree make one tree, which the walk lists node by node. -/
structure Ordered (nodes : List JoinTreeNode) : Prop where
  /-- The links lead through the children of a node. -/
  links : ∀ p n, nodes[p]? = some n → Chain nodes n.firstChild (childrenOf nodes p)
  /-- The children are the nodes whose parent is the node, in the order in which they were added. -/
  children : ∀ p, childrenOf nodes p = added nodes p
  /-- The walk ends when the stack is empty. -/
  walk : Traversal nodes [0] (preorder nodes)
  /-- Each node is visited once. -/
  once : (preorder nodes).Perm (List.range nodes.length)
  /-- What is below a node stands right behind it, and nothing else in between; its children stand there in the order in which
  they were added. -/
  piece : ∀ i < nodes.length, ∃ before below after, preorder nodes = before ++ i :: below ++ after ∧
    (∀ j, j ∈ below ↔ TransGen (IsChild nodes) i j) ∧ (added nodes i).Sublist below
  /-- The node that is found for a table is the first one with this table. -/
  found : ∀ table i, find? nodes table = some i ↔ ∃ before after, preorder nodes = before ++ i :: after ∧
    (nodes[i]?).map (·.table) = some table ∧ ∀ j ∈ before, (nodes[j]?).map (·.table) ≠ some table
  /-- Where none is found no node has the table. -/
  missing : ∀ table, find? nodes table = none ↔ ∀ n ∈ nodes, n.table ≠ table

/-! ## Links -/

/-- The nodes that were added to a parent are its children. -/
theorem mem_added : i ∈ added nodes p ↔ IsChild nodes p i := by
  rw [added, List.mem_filter, List.mem_range, decide_eq_true_eq, and_iff_right_iff_imp]
  intro h
  obtain ⟨n, hn, -⟩ := Option.bind_eq_some_iff.1 h
  exact (List.getElem?_eq_some_iff.1 hn).1

/-- No node was added twice. -/
theorem nodup_added : (added nodes p).Nodup := List.nodup_range.filter _

/-- A parent has no more children than there are nodes. -/
theorem length_added_le : (added nodes p).length ≤ nodes.length :=
  Nat.le_trans (List.length_filter_le _ _) (Nat.le_of_eq List.length_range)

/-- Following the links along a chain meets its nodes. -/
theorem Chain.siblingsFrom {next : Option Nat} {l : List Nat} (h : Chain nodes next l) {links : Nat} (hl : l.length ≤ links) :
    siblingsFrom nodes links next = l := by
  induction h generalizing links with
  | stop => cases links <;> rfl
  | @link i n l hn _ ih =>
    cases links with
    | zero => exact absurd hl (Nat.not_succ_le_zero _)
    | succ links => rw [JoinTree.siblingsFrom, hn, Option.bind_some, ih (Nat.le_of_succ_le_succ hl)]

/-- A chain stays where the nodes on it keep their links. -/
theorem Chain.congr {next : Option Nat} {l : List Nat} (h : Chain nodes next l)
    (hsame : ∀ i ∈ l, ∀ n, nodes[i]? = some n → ∃ n', nodes'[i]? = some n' ∧ n'.nextSibling = n.nextSibling) :
    Chain nodes' next l := by
  induction h with
  | stop => exact .stop
  | @link i n l hn _ ih =>
    obtain ⟨n', hn', hnext⟩ := hsame i List.mem_cons_self n hn
    refine .link hn' ?_
    rw [hnext]
    exact ih fun j hj => hsame j (List.mem_cons_of_mem i hj)

/-- A chain goes on where its last node gets a link to another one. -/
theorem Chain.snoc {next : Option Nat} {l : List Nat} {last k : Nat} (h : Chain nodes next (l ++ [last]))
    (hsame : ∀ i ∈ l, ∀ n, nodes[i]? = some n → ∃ n', nodes'[i]? = some n' ∧ n'.nextSibling = n.nextSibling)
    (hlast : ∃ n, nodes'[last]? = some n ∧ n.nextSibling = some k) (hk : Chain nodes' (some k) [k]) :
    Chain nodes' next (l ++ [last] ++ [k]) := by
  induction l generalizing next with
  | nil =>
    obtain ⟨n', hn', hnext⟩ := hlast
    cases h with
    | link hn h => exact .link hn' (hnext ▸ hk)
  | cons i l ih =>
    cases h with
    | @link _ n _ hn h =>
      obtain ⟨n', hn', hnext⟩ := hsame i List.mem_cons_self n hn
      refine .link hn' ?_
      rw [hnext]
      exact ih h fun j hj => hsame j (List.mem_cons_of_mem i hj)

/-- Parents stand before their children, and the links of a node lead through the nodes that were added to it. -/
structure Linked (nodes : List JoinTreeNode) : Prop where
  nonempty : nodes ≠ []
  root : ∀ (i : Nat) n, nodes[i]? = some n → n.parent = none → i = 0
  parent : ∀ (i : Nat) n, nodes[i]? = some n → ∀ p ∈ n.parent, p < i
  chained : ∀ (p : Nat) n, nodes[p]? = some n → Chain nodes n.firstChild (added nodes p)

/-- Children come behind their parents. -/
theorem Linked.lt_of_isChild (h : Linked nodes) (hc : IsChild nodes p i) : p < i := by
  obtain ⟨n, hn, hp⟩ := Option.bind_eq_some_iff.1 hc
  exact h.parent i n hn p hp

/-- A child is a node of the tree. -/
theorem lt_length_of_isChild (hc : IsChild nodes p i) : i < nodes.length :=
  List.mem_range.1 (List.mem_of_mem_filter (mem_added.2 hc))

/-- The children that the links lead to are the nodes that were added to the parent, in this order. -/
theorem Linked.childrenOf (h : Linked nodes) (p : Nat) : childrenOf nodes p = added nodes p := by
  cases hn : nodes[p]? with
  | some n =>
    rw [JoinTree.childrenOf, hn]
    exact (h.chained p n hn).siblingsFrom length_added_le
  | none =>
    rw [JoinTree.childrenOf, hn, Option.bind_none, Chain.siblingsFrom .stop (Nat.zero_le _)]
    symm
    rw [List.eq_nil_iff_forall_not_mem]
    intro i hi
    have hi := mem_added.1 hi
    have hlt := Nat.lt_trans (h.lt_of_isChild hi) (lt_length_of_isChild hi)
    exact absurd (List.getElem?_eq_none_iff.1 hn) (Nat.not_le.2 hlt)

/-- A root alone is linked. -/
theorem linked_ofRoot (root : SourceId) : Linked (ofRoot root) := by
  have hself : ∀ (i : Nat) n, (ofRoot root)[i]? = some n → i = 0 ∧ n = { table := root } := by
    intro i n hn
    cases i with
    | zero => exact ⟨rfl, (Option.some.inj hn).symm⟩
    | succ i => cases hn
  refine ⟨List.cons_ne_nil _ _, fun i n hn _ => (hself i n hn).1, ?_, ?_⟩
  · intro i n hn p hp
    rw [(hself i n hn).2] at hp
    cases hp
  · intro p n hn
    obtain ⟨rfl, rfl⟩ := hself p n hn
    exact .stop

/-! ## New children -/

section Fields

variable {α : Type} {g : JoinTreeNode → α}

/-- Nodes that have the same in some fields, at one place. -/
theorem exists_of_map_eq (h : nodes'.map g = nodes.map g) {n : JoinTreeNode} (hn : nodes'[i]? = some n) :
    ∃ m, nodes[i]? = some m ∧ g m = g n := by
  have hi := congrArg (·[i]?) h
  rw [List.getElem?_map, List.getElem?_map, hn] at hi
  exact Option.map_eq_some_iff.1 hi.symm

/-- A change that leaves what is looked at leaves it for all nodes. -/
theorem map_modify {f : JoinTreeNode → JoinTreeNode} (hf : ∀ n, g (f n) = g n) (i : Nat) :
    (nodes.modify i f).map g = nodes.map g := by
  refine List.ext_getElem? fun j => ?_
  rw [List.getElem?_map, List.getElem?_map, List.getElem?_modify]
  split <;> cases nodes[j]? <;> simp [hf]

end Fields

/-- Who is a child depends on the parents of the nodes only. -/
theorem isChild_congr (h : nodes'.map (·.parent) = nodes.map (·.parent)) : IsChild nodes' p i ↔ IsChild nodes p i := by
  have hparent : ∀ nodes : List JoinTreeNode, (nodes[i]?).bind (·.parent) = ((nodes.map (·.parent))[i]?).join := by
    intro nodes
    rw [List.getElem?_map]
    cases nodes[i]? <;> rfl
  rw [IsChild, IsChild, hparent, hparent, h]

/-- Which nodes were added to a parent depends on the parents of the nodes only. -/
theorem added_congr (h : nodes'.map (·.parent) = nodes.map (·.parent)) (p : Nat) : added nodes' p = added nodes p := by
  have hlength := congrArg List.length h
  rw [List.length_map, List.length_map] at hlength
  rw [added, added, hlength]
  exact List.filter_congr fun i _ => decide_eq_decide.2 (isChild_congr h)

/-- A node that is added comes last among the children of its parent. -/
theorem added_append (nodes : List JoinTreeNode) (n : JoinTreeNode) (p : Nat) :
    added (nodes ++ [n]) p = added nodes p ++ if n.parent = some p then [nodes.length] else [] := by
  rw [added, List.length_append, List.length_singleton, List.range_succ, List.filter_append, added]
  refine congrArg₂ _ (List.filter_congr fun i hi => decide_eq_decide.2 ?_) ?_
  · rw [IsChild, IsChild, List.getElem?_append_left (List.mem_range.1 hi)]
  · by_cases hp : n.parent = some p <;> simp [IsChild, hp]

section Growth

variable {parent : Nat} {table : SourceId} {kind : JoinKind}

/-- A list of nodes that is linked but for the last one is linked when the chain of its parent leads to it. -/
theorem Linked.of_growth (h : Linked nodes) (hp : parent < nodes.length) {n : JoinTreeNode} (hn : n.parent = some parent)
    (hparents : nodes'.map (·.parent) = (nodes ++ [n]).map (·.parent))
    (hnew : ∀ n', nodes'[nodes.length]? = some n' → n'.firstChild = none)
    (hsame : ∀ p n', p ≠ parent → p < nodes.length → nodes'[p]? = some n' → Chain nodes' n'.firstChild (added nodes p))
    (hparent : ∀ n', nodes'[parent]? = some n' → Chain nodes' n'.firstChild (added nodes parent ++ [nodes.length])) :
    Linked nodes' := by
  -- A node of the longer list is an old one, possibly with other links, or the new one.
  have hcases : ∀ (i : Nat) n', nodes'[i]? = some n' → (∃ m, nodes[i]? = some m ∧ m.parent = n'.parent) ∨
      i = nodes.length ∧ n'.parent = some parent := by
    intro i n' hn'
    obtain ⟨m, hm, hmp⟩ := exists_of_map_eq hparents hn'
    rcases Nat.lt_or_ge i nodes.length with hi | hi
    · rw [List.getElem?_append_left hi] at hm
      exact Or.inl ⟨m, hm, hmp⟩
    · obtain ⟨hi', -⟩ := List.getElem?_eq_some_iff.1 hm
      rw [List.length_append, List.length_singleton] at hi'
      obtain rfl : i = nodes.length := Nat.le_antisymm (Nat.le_of_lt_succ hi') hi
      rw [List.getElem?_concat_length] at hm
      exact Or.inr ⟨rfl, by rw [← hmp, ← Option.some.inj hm, hn]⟩
  constructor
  case nonempty =>
    rintro rfl
    have hlength := congrArg List.length hparents
    simp at hlength
  case root =>
    intro i n' hn' hroot
    rcases hcases i n' hn' with ⟨m, hm, hmp⟩ | ⟨-, hmp⟩
    · exact h.root i m hm (hmp.trans hroot)
    · rw [hroot] at hmp
      cases hmp
  case parent =>
    intro i n' hn' q hq
    rcases hcases i n' hn' with ⟨m, hm, hmp⟩ | ⟨rfl, hmp⟩
    · exact h.parent i m hm q (hmp ▸ hq)
    · rw [hmp] at hq
      cases hq
      exact hp
  case chained =>
    intro q n' hn'
    rw [added_congr hparents, added_append, hn]
    rcases hcases q n' hn' with ⟨m, hm, -⟩ | ⟨rfl, -⟩
    · by_cases hq : q = parent
      · subst hq
        rw [if_pos rfl]
        exact hparent n' hn'
      · rw [if_neg fun heq => hq (Option.some.inj heq).symm, List.append_nil]
        exact hsame q n' hq (List.getElem?_eq_some_iff.1 hm).1 hn'
    · rw [if_neg fun heq => Nat.ne_of_lt hp (Option.some.inj heq), List.append_nil, ← h.childrenOf, JoinTree.childrenOf,
        List.getElem?_eq_none (Nat.le_refl _), Option.bind_none, Chain.siblingsFrom .stop (Nat.zero_le _), hnew n' hn']
      exact .stop

/-- The link to a new child comes from the last one of its siblings. -/
theorem Linked.link_sibling (h : Linked nodes) (hp : parent < nodes.length) {n : JoinTreeNode} (hn : n.parent = some parent)
    (hfirst : n.firstChild = none) (hnext : n.nextSibling = none) {l : List Nat} {last : Nat}
    (hl : added nodes parent = l ++ [last]) :
    Linked ((nodes ++ [n]).modify last fun m => { m with nextSibling := some nodes.length }) := by
  have hchild : ∀ i ∈ l ++ [last], IsChild nodes parent i := fun i hi => mem_added.1 (hl ▸ hi)
  have hlast : last < nodes.length := lt_length_of_isChild (hchild last List.mem_concat_self)
  have hparents : ((nodes ++ [n]).modify last fun m => { m with nextSibling := some nodes.length }).map (·.parent) =
      (nodes ++ [n]).map (·.parent) := map_modify (fun _ => by rfl) last
  have hself : ((nodes ++ [n]).modify last fun m => { m with nextSibling := some nodes.length })[last]? =
      some { nodes[last] with nextSibling := some nodes.length } := by
    rw [List.getElem?_modify_eq, List.getElem?_append_left hlast, List.getElem?_eq_getElem hlast]
    rfl
  have hother : ∀ i, i ≠ last →
      ((nodes ++ [n]).modify last fun m => { m with nextSibling := some nodes.length })[i]? = (nodes ++ [n])[i]? :=
    fun i hi => List.getElem?_modify_ne _ _ (Ne.symm hi)
  -- From here on only these three facts about the changed list are used.
  generalize (nodes ++ [n]).modify last (fun m => { m with nextSibling := some nodes.length }) = nodes' at *
  have hnew : nodes'[nodes.length]? = some n := (hother _ (Nat.ne_of_gt hlast)).trans List.getElem?_concat_length
  have hold : ∀ i < nodes.length, i ≠ last → nodes'[i]? = nodes[i]? :=
    fun i hi hne => (hother i hne).trans (List.getElem?_append_left hi)
  have hfirst' : ∀ q n', q < nodes.length → nodes'[q]? = some n' → Chain nodes n'.firstChild (added nodes q) := by
    intro q n' hq hn'
    by_cases hne : q = last
    · subst hne
      rw [hself] at hn'
      cases hn'
      exact h.chained q nodes[q] (List.getElem?_eq_getElem hq)
    · exact h.chained q n' ((hold q hq hne).symm.trans hn')
  have hstay : ∀ i < nodes.length, i ≠ last → ∀ m, nodes[i]? = some m →
      ∃ m', nodes'[i]? = some m' ∧ m'.nextSibling = m.nextSibling :=
    fun i hi hne m hm => ⟨m, (hold i hi hne).trans hm, rfl⟩
  refine h.of_growth hp hn hparents ?_ ?_ ?_
  · intro n' hn'
    rw [hnew] at hn'
    rw [← Option.some.inj hn', hfirst]
  · intro q n' hq hlt hn'
    refine (hfirst' q n' hlt hn').congr fun i hi => ?_
    have hi := mem_added.1 hi
    refine hstay i (lt_length_of_isChild hi) ?_
    rintro rfl
    exact hq (Option.some.inj (hi.symm.trans (hchild i List.mem_concat_self)))
  · intro n' hn'
    have hchain := hfirst' parent n' hp hn'
    have hnodup : (l ++ [last]).Nodup := hl ▸ nodup_added
    rw [hl] at hchain ⊢
    refine hchain.snoc (fun i hi => ?_) ⟨_, hself, rfl⟩ (.link hnew (hnext ▸ .stop))
    refine hstay i (lt_length_of_isChild (hchild i (List.mem_append_left _ hi))) ?_
    rintro rfl
    exact (List.nodup_append.1 hnodup).2.2 i hi i (List.mem_singleton_self i) rfl

/-- The link to a first child comes from its parent. -/
theorem Linked.link_first (h : Linked nodes) (hp : parent < nodes.length) {n : JoinTreeNode} (hn : n.parent = some parent)
    (hfirst : n.firstChild = none) (hnext : n.nextSibling = none) (hnil : added nodes parent = []) :
    Linked ((nodes ++ [n]).modify parent fun m => { m with firstChild := some nodes.length }) := by
  have hparents : ((nodes ++ [n]).modify parent fun m => { m with firstChild := some nodes.length }).map (·.parent) =
      (nodes ++ [n]).map (·.parent) := map_modify (fun _ => by rfl) parent
  have hself : ((nodes ++ [n]).modify parent fun m => { m with firstChild := some nodes.length })[parent]? =
      some { nodes[parent] with firstChild := some nodes.length } := by
    rw [List.getElem?_modify_eq, List.getElem?_append_left hp, List.getElem?_eq_getElem hp]
    rfl
  have hother : ∀ i, i ≠ parent →
      ((nodes ++ [n]).modify parent fun m => { m with firstChild := some nodes.length })[i]? = (nodes ++ [n])[i]? :=
    fun i hi => List.getElem?_modify_ne _ _ (Ne.symm hi)
  generalize (nodes ++ [n]).modify parent (fun m => { m with firstChild := some nodes.length }) = nodes' at *
  have hnew : nodes'[nodes.length]? = some n := (hother _ (Nat.ne_of_gt hp)).trans List.getElem?_concat_length
  refine h.of_growth hp hn hparents ?_ ?_ ?_
  · intro n' hn'
    rw [hnew] at hn'
    rw [← Option.some.inj hn', hfirst]
  · intro q n' hq hlt hn'
    rw [hother q hq, List.getElem?_append_left hlt] at hn'
    refine (h.chained q n' hn').congr fun i hi m hm => ?_
    have hi := lt_length_of_isChild (mem_added.1 hi)
    by_cases hne : i = parent
    · subst hne
      rw [List.getElem?_eq_getElem hi] at hm
      cases hm
      exact ⟨_, hself, rfl⟩
    · exact ⟨m, ((hother i hne).trans (List.getElem?_append_left hi)).trans hm, rfl⟩
  · intro n' hn'
    rw [hself] at hn'
    cases hn'
    rw [hnil]
    exact .link hnew (hnext ▸ .stop)

/-- A new child gets its link from the last child of its parent, or from the parent. -/
theorem Linked.addChild (h : Linked nodes) (hp : parent < nodes.length) (table : SourceId) (kind : JoinKind) :
    Linked (addChild nodes parent table kind) := by
  have hchildren : JoinTree.childrenOf (nodes ++ [{ table, parent := some parent, kind }]) parent = added nodes parent := by
    have hm := List.getElem?_eq_getElem hp
    rw [JoinTree.childrenOf, List.getElem?_append_left hp, hm]
    refine ((h.chained parent _ hm).congr fun i hi n hn => ?_).siblingsFrom (Nat.le_trans length_added_le (by simp))
    exact ⟨n, (List.getElem?_append_left (lt_length_of_isChild (mem_added.1 hi))).trans hn, rfl⟩
  rw [JoinTree.addChild, hchildren]
  cases hl : (added nodes parent).getLast? with
  | some last =>
    obtain ⟨l, hl⟩ := List.getLast?_eq_some_iff.1 hl
    exact h.link_sibling hp rfl rfl rfl hl
  | none => exact h.link_first hp rfl rfl rfl (List.getLast?_eq_none_iff.1 hl)

end Growth

/-- The links of a node. -/
def links (n : JoinTreeNode) : Option Nat × Option Nat × Option Nat := (n.parent, n.firstChild, n.nextSibling)

/-- Nodes stay linked whatever is changed besides their links. -/
theorem Linked.of_links (h : Linked nodes) (hlinks : nodes'.map links = nodes.map links) : Linked nodes' := by
  have hat : ∀ (i : Nat) n', nodes'[i]? = some n' → ∃ n, nodes[i]? = some n ∧ n.parent = n'.parent ∧
      n.firstChild = n'.firstChild ∧ n.nextSibling = n'.nextSibling := by
    intro i n' hn'
    obtain ⟨n, hn, heq⟩ := exists_of_map_eq hlinks hn'
    simp only [links, Prod.mk.injEq] at heq
    exact ⟨n, hn, heq⟩
  have hparents : nodes'.map (·.parent) = nodes.map (·.parent) := by
    have hfst := congrArg (List.map Prod.fst) hlinks
    rwa [List.map_map, List.map_map] at hfst
  constructor
  case nonempty =>
    rintro rfl
    exact h.nonempty (List.map_eq_nil_iff.1 hlinks.symm)
  case root =>
    intro i n' hn' hroot
    obtain ⟨n, hn, hp, -⟩ := hat i n' hn'
    exact h.root i n hn (hp.trans hroot)
  case parent =>
    intro i n' hn' p hp
    obtain ⟨n, hn, hparent, -⟩ := hat i n' hn'
    exact h.parent i n hn p (hparent ▸ hp)
  case chained =>
    intro p n' hn'
    obtain ⟨n, hn, -, hfirst, -⟩ := hat p n' hn'
    rw [added_congr hparents, ← hfirst]
    refine (h.chained p n hn).congr fun i _ m hm => ?_
    obtain ⟨m', hm', heq⟩ := exists_of_map_eq hlinks.symm hm
    simp only [links, Prod.mk.injEq] at heq
    exact ⟨m', hm', heq.2.2⟩

/-! ## Descendants -/

namespace Linked

variable (h : Linked nodes)
include h

/-- What lies below a node comes behind it. -/
theorem le_of_below (hb : ReflTransGen (IsChild nodes) i j) : i ≤ j := by
  induction hb with
  | refl => exact Nat.le_refl i
  | tail _ hc ih => exact Nat.le_trans ih (Nat.le_of_lt (h.lt_of_isChild hc))

/-- All nodes are below the root. -/
theorem below_root (hi : i < nodes.length) : ReflTransGen (IsChild nodes) 0 i := by
  induction i using Nat.strongRecOn with
  | _ i ih =>
    have hn := List.getElem?_eq_getElem hi
    cases hp : nodes[i].parent with
    | none =>
      rw [h.root i _ hn hp]
    | some p =>
      have hc : IsChild nodes p i := by rw [IsChild, hn, Option.bind_some, hp]
      have hlt := h.lt_of_isChild hc
      exact (ih p hlt (Nat.lt_trans hlt hi)).tail hc

/-- Nothing is below two siblings. -/
theorem eq_of_below_siblings {a b : Nat} (ha : IsChild nodes p a) (hb : IsChild nodes p b)
    (haj : ReflTransGen (IsChild nodes) a j) (hbj : ReflTransGen (IsChild nodes) b j) : a = b := by
  have hup : Relator.RightUnique (Function.swap (IsChild nodes)) := by
    intro i q q' hq hq'
    exact Option.some.inj (hq.symm.trans hq')
  have hsibling : ∀ {a b : Nat}, IsChild nodes p a → IsChild nodes p b → ReflTransGen (IsChild nodes) a b → a = b := by
    intro a b ha hb hab
    rcases ReflTransGen.cases_tail hab with rfl | ⟨q, haq, hq⟩
    · rfl
    · obtain rfl : q = p := hup hq hb
      exact absurd (h.le_of_below haq) (Nat.not_le.2 (h.lt_of_isChild ha))
  rcases ReflTransGen.total_of_right_unique hup (reflTransGen_swap.2 haj) (reflTransGen_swap.2 hbj) with hab | hba
  · exact (hsibling hb ha (reflTransGen_swap.1 hab)).symm
  · exact hsibling ha hb (reflTransGen_swap.1 hba)

end Linked

/-! ## The order of the walk -/

/-- Some nodes with all that is below them, a node before its children. -/
inductive Forest (nodes : List JoinTreeNode) : List Nat → List Nat → Prop where
  | nil : Forest nodes [] []
  | cons {i : Nat} {is below rest : List Nat} : Forest nodes (childrenOf nodes i) below → Forest nodes is rest →
      Forest nodes (i :: is) (i :: below ++ rest)

/-- With enough steps the walk visits what the traversal visits. -/
theorem Traversal.walkFrom {stack visited : List Nat} (h : Traversal nodes stack visited) {steps : Nat}
    (hsteps : visited.length ≤ steps) : walkFrom nodes steps stack = visited := by
  induction h generalizing steps with
  | stop => cases steps <;> rfl
  | visit _ ih =>
    cases steps with
    | zero => exact absurd hsteps (Nat.not_succ_le_zero _)
    | succ steps => rw [JoinTree.walkFrom, ih (Nat.le_of_succ_le_succ hsteps)]

namespace Forest

variable {is l : List Nat}

/-- The walk from a stack visits the nodes on top of it with all that is below them before the rest. -/
theorem traversal (h : Forest nodes is l) {stack visited : List Nat} (hrest : Traversal nodes stack visited) :
    Traversal nodes (is ++ stack) (l ++ visited) := by
  induction h generalizing stack visited with
  | nil => exact hrest
  | cons _ _ ihbelow ihrest =>
    rw [List.cons_append, List.cons_append, List.cons_append, List.append_assoc]
    exact .visit (ihbelow (ihrest hrest))

/-- Each of the roots of a forest is visited in its turn. -/
theorem sublist (h : Forest nodes is l) : is.Sublist l := by
  induction h with
  | nil => exact .slnil
  | cons _ _ _ ihrest => exact (ihrest.trans (List.sublist_append_right _ _)).cons_cons _

/-- A forest visits what lies below one of its roots. -/
theorem mem_iff (h : Forest nodes is l) (hlinked : Linked nodes) (j : Nat) :
    j ∈ l ↔ ∃ i ∈ is, ReflTransGen (IsChild nodes) i j := by
  induction h with
  | nil => simp
  | @cons i is below rest _ _ ihbelow ihrest =>
    have hself : j = i ∨ j ∈ below ↔ ReflTransGen (IsChild nodes) i j := by
      rw [ReflTransGen.cases_head_iff, ihbelow, hlinked.childrenOf, eq_comm]
      simp only [mem_added]
    rw [List.mem_append, List.mem_cons, hself, ihrest, List.exists_mem_cons_iff]

/-- What is below a node stands in one piece behind it. -/
theorem piece (h : Forest nodes is l) {i : Nat} (hi : i ∈ l) :
    ∃ before below after, l = before ++ i :: below ++ after ∧ Forest nodes (childrenOf nodes i) below := by
  induction h with
  | nil => cases hi
  | @cons k is below rest hbelow _ ihbelow ihrest =>
    rcases List.mem_append.1 hi with hi | hi
    · rcases List.mem_cons.1 hi with rfl | hi
      · exact ⟨[], below, rest, rfl, hbelow⟩
      · obtain ⟨before, below', after, rfl, hbelow'⟩ := ihbelow hi
        exact ⟨k :: before, below', after ++ rest, by simp, hbelow'⟩
    · obtain ⟨before, below', after, rfl, hbelow'⟩ := ihrest hi
      exact ⟨k :: below ++ before, below', after, by simp, hbelow'⟩

/-- A forest whose roots share nothing below them visits no node twice. -/
theorem nodup (h : Forest nodes is l) (hlinked : Linked nodes)
    (hapart : is.Pairwise fun a b => ∀ j, ReflTransGen (IsChild nodes) a j → ¬ReflTransGen (IsChild nodes) b j) : l.Nodup := by
  induction h with
  | nil => exact List.nodup_nil
  | @cons i is below rest hbelow hrest ihbelow ihrest =>
    rw [List.pairwise_cons] at hapart
    have hi : (i :: below).Nodup := by
      refine List.nodup_cons.2 ⟨?_, ihbelow ?_⟩
      · rw [hbelow.mem_iff hlinked, hlinked.childrenOf]
        rintro ⟨c, hc, hci⟩
        exact absurd (hlinked.le_of_below hci) (Nat.not_le.2 (hlinked.lt_of_isChild (mem_added.1 hc)))
      · rw [hlinked.childrenOf]
        refine nodup_added.imp_of_mem fun {a b} ha hb hne j haj hbj => hne ?_
        exact hlinked.eq_of_below_siblings (mem_added.1 ha) (mem_added.1 hb) haj hbj
    refine List.nodup_append.2 ⟨hi, ihrest hapart.2, ?_⟩
    rintro j hj k hk rfl
    obtain ⟨b, hb, hbj⟩ := (hrest.mem_iff hlinked j).1 hk
    have hij : ReflTransGen (IsChild nodes) i j := by
      rcases List.mem_cons.1 hj with rfl | hj
      · exact .refl
      · obtain ⟨c, hc, hcj⟩ := (hbelow.mem_iff hlinked j).1 hj
        rw [hlinked.childrenOf] at hc
        exact .head (mem_added.1 hc) hcj
    exact hapart.1 b hb j hij hbj

end Forest

/-- From any nodes on there is an end: children stand behind their parents. -/
theorem Linked.exists_forest (h : Linked nodes) (is : List Nat) (his : ∀ i ∈ is, i < nodes.length) :
    ∃ l, Forest nodes is l := by
  suffices hdepth : ∀ depth (is : List Nat), (∀ i ∈ is, i < nodes.length ∧ nodes.length ≤ i + depth) → ∃ l, Forest nodes is l from
    hdepth nodes.length is fun i hi => ⟨his i hi, Nat.le_add_left _ _⟩
  intro depth
  induction depth with
  | zero =>
    intro is his
    cases is with
    | nil => exact ⟨[], .nil⟩
    | cons i is => exact absurd (his i List.mem_cons_self).1 (Nat.not_lt.2 (his i List.mem_cons_self).2)
  | succ depth ih =>
    intro is his
    induction is with
    | nil => exact ⟨[], .nil⟩
    | cons i is ihis =>
      obtain ⟨rest, hrest⟩ := ihis fun i hi => his i (List.mem_cons_of_mem _ hi)
      obtain ⟨below, hbelow⟩ := ih (JoinTree.childrenOf nodes i) fun c hc => by
        rw [h.childrenOf] at hc
        have hc := mem_added.1 hc
        have hlt := h.lt_of_isChild hc
        have hi := (his i List.mem_cons_self).2
        exact ⟨lt_length_of_isChild hc, by omega⟩
      exact ⟨_, .cons hbelow hrest⟩

/-- The node that is found for a table is the first one with this table on the walk. -/
theorem find?_eq_some_iff {table : SourceId} : find? nodes table = some i ↔ ∃ before after,
    preorder nodes = before ++ i :: after ∧ (nodes[i]?).map (·.table) = some table ∧
      ∀ j ∈ before, (nodes[j]?).map (·.table) ≠ some table := by
  simp only [find?, List.find?_eq_some_iff_append, beq_iff_eq, Bool.not_eq_true', beq_eq_false_iff_ne]
  constructor
  · rintro ⟨hi, before, after, heq, hbefore⟩
    exact ⟨before, after, heq, hi, hbefore⟩
  · rintro ⟨before, after, heq, hi, hbefore⟩
    exact ⟨hi, before, after, heq, hbefore⟩

/-- Where the walk comes to all nodes, a table that is not found is on none of them. -/
theorem find?_eq_none_iff {table : SourceId} (hmem : ∀ i, i ∈ preorder nodes ↔ i < nodes.length) :
    find? nodes table = none ↔ ∀ n ∈ nodes, n.table ≠ table := by
  simp only [find?, List.find?_eq_none, beq_iff_eq, hmem]
  constructor
  · intro hnone n hn heq
    obtain ⟨i, hi, rfl⟩ := List.mem_iff_getElem.1 hn
    exact hnone i hi (by rw [List.getElem?_eq_getElem hi, Option.map_some, heq])
  · intro hnone i hi heq
    rw [List.getElem?_eq_getElem hi, Option.map_some] at heq
    exact hnone _ (List.getElem_mem hi) (Option.some.inj heq)

/-- A linked tree is in order. -/
theorem Linked.ordered (h : Linked nodes) : Ordered nodes := by
  have hroot : 0 < nodes.length := List.length_pos_iff.2 h.nonempty
  obtain ⟨l, hl⟩ := h.exists_forest [0] (by simpa using hroot)
  have hmem : ∀ i, i ∈ l ↔ i < nodes.length := by
    intro i
    rw [hl.mem_iff h, List.exists_mem_cons_iff]
    constructor
    · rintro (hb | ⟨_, hk, -⟩)
      · rcases ReflTransGen.cases_tail hb with rfl | ⟨p, -, hc⟩
        · exact hroot
        · exact lt_length_of_isChild hc
      · cases hk
    · exact fun hi => Or.inl (h.below_root hi)
  -- All nodes are below the root, so that the forest over the root has each index once.
  have hperm : l.Perm (List.range nodes.length) :=
    (List.perm_ext_iff_of_nodup (hl.nodup h (List.pairwise_singleton _ _)) List.nodup_range).2 fun i =>
      (hmem i).trans List.mem_range.symm
  have hwalk : Traversal nodes [0] l := by simpa using hl.traversal .stop
  have hpreorder : preorder nodes = l := hwalk.walkFrom (Nat.le_of_eq (hperm.length_eq.trans List.length_range))
  constructor
  case links => exact fun p n hn => (h.childrenOf p).symm ▸ h.chained p n hn
  case children => exact h.childrenOf
  case walk => exact hpreorder ▸ hwalk
  case once => exact hpreorder ▸ hperm
  case piece =>
    intro i hi
    obtain ⟨before, below, after, heq, hbelow⟩ := hl.piece ((hmem i).2 hi)
    refine ⟨before, below, after, hpreorder.trans heq, fun j => ?_, h.childrenOf i ▸ hbelow.sublist⟩
    rw [hbelow.mem_iff h, h.childrenOf, TransGen.head'_iff]
    simp only [mem_added]
  case found => exact fun _ _ => find?_eq_some_iff
  case missing => exact fun _ => find?_eq_none_iff (hpreorder ▸ hmem)

end JoinTree

/-! ## All join trees -/

namespace Plan

/-- The nodes of a join tree. -/
def treeNodes : Plan → List JoinTreeNode
  | joinTree _ _ nodes _ _ => nodes
  | _ => []

/-- The join trees that are made for a table, get children below their nodes and are copied. What their nodes hold besides the
links may be changed at any time. -/
inductive IsJoinTree : Plan → Prop where
  | ofRoot (id : Int) (group : GroupId) (root : SourceId) : IsJoinTree (.joinTree id group (JoinTree.ofRoot root) [[]] none)
  | addChild {p : Plan} {parent : Nat} (table : SourceId) (kind : JoinKind) : IsJoinTree p → parent < p.treeNodes.length →
      IsJoinTree (p.addTreeChild parent table kind)
  | copy {p : Plan} (s : Duplication) : IsJoinTree p → IsJoinTree (p.copy s).1
  | setState {p : Plan} (i : Nat) (state : Int) : IsJoinTree p → IsJoinTree (p.editTreeNode i fun n => { n with state })
  | setKind {p : Plan} (i : Nat) (kind : JoinKind) : IsJoinTree p → IsJoinTree (p.editTreeNode i fun n => { n with kind })
  | addCondition {p : Plan} (i : Nat) (e : Expr) : IsJoinTree p → IsJoinTree (p.addTreeCondition i e)
  | setScan {p : Plan} (scan : Plan) : IsJoinTree p → IsJoinTree (p.setTreeScan scan)

end Plan

namespace JoinTree

open Duplication

/-- The copy of a join tree has its links. -/
theorem links_copyJoinTree : ∀ (nodes : List JoinTreeNode) (rows : List (List Expr)) (s : Duplication),
    ((Expr.copyJoinTree nodes rows s).1.1).map links = nodes.map links
  | [], _, _ => by rw [Expr.copyJoinTree]; rfl
  | n :: nodes, [], s => by
    rw [Expr.copyJoinTree]
    exact congrArg (List.cons (links n)) (links_copyJoinTree nodes [] (source n.table s).2)
  | n :: nodes, row :: rows, s => by
    rw [Expr.copyJoinTree]
    exact congrArg (List.cons (links n)) (links_copyJoinTree nodes rows (Expr.copyAll row (source n.table s).2).2)

end JoinTree

/-- The nodes of a plan that is a join tree are linked. -/
theorem Plan.IsJoinTree.linked {p : Plan} (h : p.IsJoinTree) : JoinTree.Linked p.treeNodes := by
  induction h with
  | ofRoot id group root => exact JoinTree.linked_ofRoot root
  | @addChild p parent table kind _ hp ih =>
    cases p with
    | joinTree => exact ih.addChild hp table kind
    | _ => exact ih
  | @copy p s _ ih =>
    cases p with
    | joinTree id group nodes conditions scan =>
      have hnodes : ((joinTree id group nodes conditions scan).copy s).1.treeNodes =
          (Expr.copyJoinTree nodes conditions s).1.1 := by
        rw [Plan.copy]
        cases scan <;> rfl
      rw [hnodes]
      exact ih.of_links (JoinTree.links_copyJoinTree nodes conditions s)
    | _ => exact absurd rfl ih.nonempty
  | @setState p i state _ ih =>
    cases p with
    | joinTree => exact ih.of_links (JoinTree.map_modify (f := fun n => { n with state }) (fun _ => rfl) i)
    | _ => exact ih
  | @setKind p i kind _ ih =>
    cases p with
    | joinTree => exact ih.of_links (JoinTree.map_modify (f := fun n => { n with kind }) (fun _ => rfl) i)
    | _ => exact ih
  | @addCondition p i e _ ih => cases p <;> exact ih
  | @setScan p scan _ ih => cases p <;> exact ih

/-- In every join tree, however it was built up and copied, the links lead from a node through its children in the order in
which they were added, and the walk ends after it has come to each node once: to a node, then to all that is below it, child by
child, and then to the next one. The node that is found for a table is the first one on this walk. -/
theorem ordered_of_isJoinTree {p : Plan} (h : p.IsJoinTree) : JoinTree.Ordered p.treeNodes :=
  h.linked.ordered

namespace OrdersTree

def customers : Catalog.Table := .root ⟨1, "customers", 0, []⟩

def orders : Catalog.Table := .child ⟨2, "orders", 1, []⟩ [] customers

def addresses : Catalog.Table := .child ⟨3, "addresses", 2, []⟩ [] customers

def items : Catalog.Table := .child ⟨4, "items", 0, []⟩ [] orders

/-- One source for each table, the customers, their orders and addresses and the items of the orders, and a group. -/
def sources : Context :=
  let ctx := ((Context.withConfig {}).addTree none).2
  let ctx := (((ctx.nodeFor ⟨0⟩ items).2.nodeFor ⟨0⟩ addresses).2)
  let ctx := ((ctx.addSource ⟨0⟩ "c" true).2.addSource ⟨1⟩ "o" true).2
  let ctx := ((ctx.addSource ⟨3⟩ "a" false).2.addSource ⟨2⟩ "i" true).2
  (ctx.addGroup ⟨0⟩).2

/-- The addresses are added between the orders and their items. -/
def planned : Plan :=
  let root := Plan.joinTree 1 ⟨0⟩ (JoinTree.ofRoot ⟨0⟩) [[]] none
  ((root.addTreeChild 0 ⟨1⟩ .inner).addTreeChild 0 ⟨2⟩ .left).addTreeChild 1 ⟨3⟩ .inner

/-- A copy of the tree. -/
def copy : Plan := (planned.copy { ctx := sources, supply := { next := 2 } }).1

/-- The items are added to the copy once more. -/
def grown : Plan := copy.addTreeChild 1 ⟨3⟩ .inner

def nodes : List JoinTreeNode :=
  [{ table := ⟨4⟩, firstChild := some 1 },
    { table := ⟨5⟩, parent := some 0, firstChild := some 3, nextSibling := some 2 },
    { table := ⟨6⟩, parent := some 0, kind := .left },
    { table := ⟨7⟩, parent := some 1, nextSibling := some 4 },
    { table := ⟨3⟩, parent := some 1 }]

/-- The copy has four nodes; grown, it has a fifth one, which comes last among the children of the second. -/
theorem treeNodes_grown : copy.treeNodes.length = 4 ∧ grown.treeNodes = nodes := by
  have hplanned : planned = .joinTree 1 ⟨0⟩
      [{ table := ⟨0⟩, firstChild := some 1 },
        { table := ⟨1⟩, parent := some 0, firstChild := some 3, nextSibling := some 2 },
        { table := ⟨2⟩, parent := some 0, kind := .left },
        { table := ⟨3⟩, parent := some 1 }] [[], [], [], []] none := rfl
  simp only [grown, copy, hplanned, Plan.copy, Expr.copyJoinTree, Expr.copyAll, Expr.copyRows]
  decide +kernel

end OrdersTree

open OrdersTree in
/-- The items of the orders come before the addresses, which were added before them. -/
theorem ordered_of_grown_orders_tree :
    grown.IsJoinTree ∧ grown.treeNodes = nodes ∧ JoinTree.preorder nodes = [0, 1, 3, 4, 2] ∧
      JoinTree.Ordered grown.treeNodes := by
  obtain ⟨hlength, hnodes⟩ := treeNodes_grown
  have hplanned : planned.IsJoinTree :=
    (((Plan.IsJoinTree.ofRoot 1 ⟨0⟩ ⟨0⟩).addChild ⟨1⟩ .inner (by decide)).addChild ⟨2⟩ .left (by decide)).addChild ⟨3⟩ .inner
      (by decide)
  have hcopy : copy.IsJoinTree := hplanned.copy _
  have hgrown : grown.IsJoinTree := hcopy.addChild ⟨3⟩ .inner (by rw [hlength]; decide)
  exact ⟨hgrown, hnodes, by decide, ordered_of_isJoinTree hgrown⟩

end ClusterPlan
