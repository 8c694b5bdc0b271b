import ClusterPlan.Proofs.Catalog.Hierarchy
import Mathlib.Data.Fintype.Card
import Mathlib.Data.List.Chain
import Mathlib.Order.Defs.Unbundled

/-!
# Chains of parents

Where ids identify tables, one table is above another one exactly if its chain is a prefix of the chain of the other
(`Identified.isAncestorOf_iff`). The order of the hierarchy is thereby that of prefixes, and the part that two chains share is
the chain of the deepest table above both, because each prefix of a chain is the chain of its last table
(`eq_ancestors_of_isPrefix`).
-/

namespace ClusterPlan.Catalog.Table

variable {T : Table → Prop} {a b c : Table} {l r q : List Table}

/-! ## Chains -/

/-- The list of the tables above a table ends with the table itself. -/
theorem getLast?_ancestors (t : Table) : t.ancestors.getLast? = some t := by
  cases t with
  | root info => rfl
  | child info key parent => exact List.getLast?_concat

theorem mem_ancestors_self (t : Table) : t ∈ t.ancestors := List.mem_of_getLast? t.getLast?_ancestors

/-- Tables with equal lists of tables above them are equal: the lists end with the tables. -/
theorem ancestors_injective (h : a.ancestors = b.ancestors) : a = b := by
  have hlast := a.getLast?_ancestors
  rw [h, b.getLast?_ancestors] at hlast
  exact (Option.some.inj hlast).symm

/-- There are as many tables above a table, itself included, as its depth and one. -/
theorem length_ancestors (t : Table) : t.ancestors.length = t.depth + 1 := by
  induction t with
  | root info => rfl
  | child info key parent ih => rw [ancestors, List.length_append, ih, depth, List.length_singleton]

/-- The list of the tables above a table starts with one that has no parent. -/
theorem exists_head?_ancestors (t : Table) : ∃ top, t.ancestors.head? = some top ∧ top.parent? = none := by
  induction t with
  | root info => exact ⟨root info, rfl, rfl⟩
  | child info key parent ih =>
    rw [head?_ancestors_child]
    exact ih

/-- In the list of the tables above a table, each is the parent of the next one. -/
theorem isChain_ancestors (t : Table) : t.ancestors.IsChain fun p c => c.parent? = some p := by
  induction t with
  | root info => exact .singleton _
  | child info key parent ih =>
    refine List.isChain_append.2 ⟨ih, .singleton _, ?_⟩
    intro p hp c hc
    rw [parent.getLast?_ancestors, Option.mem_some_iff] at hp
    rw [List.head?_singleton, Option.mem_some_iff] at hc
    rw [← hp, ← hc, parent?]

/-- Where a chain is cut off, it is the chain of the table that is last then. -/
theorem eq_ancestors_of_isPrefix (h : l <+: b.ancestors) (hlast : l.getLast? = some c) : l = c.ancestors := by
  induction b with
  | root info =>
    cases l with
    | nil => cases hlast
    | cons x l =>
      obtain ⟨rfl, hnil⟩ := List.cons_prefix_cons.1 h
      obtain rfl := List.prefix_nil.1 hnil
      cases hlast
      rfl
  | child info key parent ih =>
    rcases List.prefix_concat_iff.1 h with rfl | h
    · rw [List.getLast?_concat] at hlast
      cases hlast
      rfl
    · exact ih h

/-- One table is above another exactly if the list of what is above it is where the list of the other starts. -/
theorem mem_ancestors_iff_isPrefix : a ∈ b.ancestors ↔ a.ancestors <+: b.ancestors := by
  constructor
  · intro h
    induction b with
    | root info => rw [List.mem_singleton.1 h]
    | child info key parent ih =>
      rcases List.mem_append.1 h with h | h
      · exact (ih h).trans (List.prefix_append _ _)
      · rw [List.mem_singleton.1 h]
  · intro h
    exact h.mem a.mem_ancestors_self

/-! ## What ids tell -/

/-- Ids alone decide whether a table is above another one. -/
theorem isAncestorOf_iff_id (a b : Table) : a.isAncestorOf b = true ↔ ∃ c ∈ b.ancestors, a.id = c.id := by
  induction b with
  | root info => simp [isAncestorOf, ancestors, id, Table.info]
  | child info key parent ih =>
    simp only [isAncestorOf, Bool.or_eq_true, beq_iff_eq, ih, ancestors, List.mem_append, List.mem_singleton, or_and_right,
      exists_or, exists_eq_left]
    exact or_comm

/-- The tables above an identified table are identified as well. -/
theorem Identified.of_mem_ancestors (hT : Identified T) (hb : T b) (h : a ∈ b.ancestors) : T a := by
  induction b with
  | root info => rwa [List.mem_singleton.1 h]
  | child info key parent ih =>
    rcases List.mem_append.1 h with h | h
    · exact ih (hT.parents _ _ hb rfl) h
    · rwa [List.mem_singleton.1 h]

/-- Among identified tables, being an ancestor by name and id is being in the list of the tables above. -/
theorem Identified.mem_ancestors_iff (hT : Identified T) (ha : T a) (hb : T b) :
    a.isAncestorOf b = true ↔ a ∈ b.ancestors := by
  rw [isAncestorOf_iff_id]
  constructor
  · rintro ⟨c, hc, hid⟩
    rwa [hT.ids a c ha (hT.of_mem_ancestors hb hc) hid]
  · intro h
    exact ⟨a, h, rfl⟩

/-- A table is above another one exactly if its chain is a prefix. -/
theorem Identified.isAncestorOf_iff (hT : Identified T) (ha : T a) (hb : T b) :
    a.isAncestorOf b = true ↔ a.ancestors <+: b.ancestors := by
  rw [hT.mem_ancestors_iff ha hb, mem_ancestors_iff_isPrefix]

/-- There are no more tables above each other than there are ids. -/
theorem Identified.depth_lt (hT : Identified T) (hb : T b) : b.depth < UInt32.size := by
  have hdistinct : (b.ancestors.map id).Nodup := by
    refine List.Nodup.map_on ?_ ?_
    · intro x hx y hy hid
      exact hT.ids x y (hT.of_mem_ancestors hb hx) (hT.of_mem_ancestors hb hy) hid
    · induction b with
      | root info => exact List.nodup_singleton _
      | child info key parent ih =>
        refine List.nodup_append.2 ⟨ih (hT.parents _ _ hb rfl), List.nodup_singleton _, ?_⟩
        rintro x hx y hy rfl
        rw [List.mem_singleton.1 hy] at hx
        have hlength := (mem_ancestors_iff_isPrefix.1 hx).length_le
        rw [length_ancestors, length_ancestors, depth] at hlength
        omega
  have hcount : ((b.ancestors.map id).map UInt32.toFin).length ≤ Fintype.card (Fin UInt32.size) :=
    (hdistinct.map fun _ _ heq => UInt32.toFin_inj.1 heq).length_le_card
  rw [List.length_map, List.length_map, length_ancestors, Fintype.card_fin] at hcount
  exact hcount

/-! ## The part that two chains share -/

/-- As far as ids agree, two lists share a prefix, and all that they share. -/
theorem prefix_agreeing_iff (hids : ∀ x ∈ l, ∀ y ∈ r, x.id = y.id → x = y) :
    q <+: ((l.zip r).takeWhile fun (x, y) => x.same y).map (·.1) ↔ q <+: l ∧ q <+: r := by
  induction l generalizing q r with
  | nil => simp +contextual [List.prefix_nil]
  | cons x l ih =>
    cases r with
    | nil => simp +contextual [List.prefix_nil]
    | cons y r =>
      cases q with
      | nil => simp
      | cons z q =>
        rw [List.zip_cons_cons, List.takeWhile_cons]
        have hrest : ∀ x' ∈ l, ∀ y' ∈ r, x'.id = y'.id → x' = y' :=
          fun x' hx y' hy => hids x' (List.mem_cons_of_mem x hx) y' (List.mem_cons_of_mem y hy)
        by_cases hsame : x.id = y.id
        · obtain rfl := hids x List.mem_cons_self y List.mem_cons_self hsame
          rw [if_pos (by simp [same]), List.map_cons, List.cons_prefix_cons, List.cons_prefix_cons, List.cons_prefix_cons,
            ih hrest, and_and_left]
        · rw [if_neg (by simpa [same] using hsame), List.map_nil, List.cons_prefix_cons, List.cons_prefix_cons]
          refine iff_of_false (List.cons_ne_nil z q ∘ List.prefix_nil.1) ?_
          rintro ⟨⟨rfl, -⟩, rfl, -⟩
          exact hsame rfl

/-- The chain of the tables that are above two tables. -/
def sharedAncestors (a b : Table) : List Table := ((a.ancestors.zip b.ancestors).takeWhile fun (x, y) => x.same y).map (·.1)

/-- The common ancestor is the last of the shared ancestors. -/
theorem commonAncestor?_eq (a b : Table) : a.commonAncestor? b = (a.sharedAncestors b).getLast? := List.getLast?_map.symm

/-- The shared ancestors are the longest start that both lists of ancestors have. -/
theorem Identified.prefix_sharedAncestors_iff (hT : Identified T) (ha : T a) (hb : T b) :
    q <+: a.sharedAncestors b ↔ q <+: a.ancestors ∧ q <+: b.ancestors :=
  prefix_agreeing_iff fun x hx y hy => hT.ids x y (hT.of_mem_ancestors ha hx) (hT.of_mem_ancestors hb hy)

/-- Both lists of ancestors start with the shared ones. -/
theorem Identified.sharedAncestors_prefix (hT : Identified T) (ha : T a) (hb : T b) :
    a.sharedAncestors b <+: a.ancestors ∧ a.sharedAncestors b <+: b.ancestors :=
  (hT.prefix_sharedAncestors_iff ha hb).1 List.prefix_rfl

/-- The deepest table above two tables is the one whose chain they share. -/
theorem Identified.commonAncestor?_eq_some_iff (hT : Identified T) (ha : T a) (hb : T b) :
    a.commonAncestor? b = some c ↔ a.sharedAncestors b = c.ancestors := by
  rw [commonAncestor?_eq]
  constructor
  · exact eq_ancestors_of_isPrefix (hT.sharedAncestors_prefix ha hb).1
  · intro h
    rw [h, c.getLast?_ancestors]

/-- Two tables share the same ancestors in either order. -/
theorem Identified.sharedAncestors_comm (hT : Identified T) (ha : T a) (hb : T b) :
    b.sharedAncestors a = a.sharedAncestors b := by
  have hprefix := (hT.prefix_sharedAncestors_iff ha hb).2 (hT.sharedAncestors_prefix hb ha).symm
  have hprefix' := (hT.prefix_sharedAncestors_iff hb ha).2 (hT.sharedAncestors_prefix ha hb).symm
  exact hprefix.eq_of_length (Nat.le_antisymm hprefix.length_le hprefix'.length_le)

/-- The common ancestor does not depend on which of the two tables asks for it. -/
theorem Identified.commonAncestor?_comm (hT : Identified T) (ha : T a) (hb : T b) :
    b.commonAncestor? a = a.commonAncestor? b := by
  rw [commonAncestor?_eq, hT.sharedAncestors_comm ha hb, commonAncestor?_eq]

/-- A table of a set that is above two tables and below every other table of the set that is. -/
structure IsLowestAbove (T : Table → Prop) (a b c : Table) : Prop where
  mem : T c
  left : c.isAncestorOf a = true
  right : c.isAncestorOf b = true
  lowest : ∀ d, T d → d.isAncestorOf a = true → d.isAncestorOf b = true → d.isAncestorOf c = true

/-- Being the lowest table above two tables does not depend on their order. -/
theorem IsLowestAbove.symm (h : IsLowestAbove T a b c) : IsLowestAbove T b a c :=
  ⟨h.mem, h.right, h.left, fun d hd hb ha => h.lowest d hd ha hb⟩

/-- What is above two tables are the tables whose chains they share. -/
theorem Identified.above_iff (hT : Identified T) (ha : T a) (hb : T b) (hc : T c) :
    c.isAncestorOf a = true ∧ c.isAncestorOf b = true ↔ c.ancestors <+: a.sharedAncestors b := by
  rw [hT.prefix_sharedAncestors_iff ha hb, hT.isAncestorOf_iff hc ha, hT.isAncestorOf_iff hc hb]

/-- The lowest table above two tables is the common ancestor that is found for them. -/
theorem Identified.isLowestAbove_iff (hT : Identified T) (ha : T a) (hb : T b) :
    IsLowestAbove T a b c ↔ a.commonAncestor? b = some c := by
  rw [hT.commonAncestor?_eq_some_iff ha hb]
  constructor
  · intro h
    have hprefix := (hT.above_iff ha hb h.mem).1 ⟨h.left, h.right⟩
    -- the shared chain is the chain of a table that is above both, and so no longer than that of the lowest
    cases hlast : (a.sharedAncestors b).getLast? with
    | none =>
      rw [List.getLast?_eq_none_iff.1 hlast] at hprefix
      exact absurd (List.prefix_nil.1 hprefix) c.ancestors_ne_nil
    | some d =>
      have hchain := eq_ancestors_of_isPrefix (hT.sharedAncestors_prefix ha hb).1 hlast
      have hd : T d := hT.of_mem_ancestors ha ((hT.sharedAncestors_prefix ha hb).1.mem (List.mem_of_getLast? hlast))
      obtain ⟨hda, hdb⟩ := (hT.above_iff ha hb hd).2 (hchain ▸ List.prefix_rfl)
      have hdc := (hT.isAncestorOf_iff hd h.mem).1 (h.lowest d hd hda hdb)
      rw [hchain] at hprefix ⊢
      exact hdc.eq_of_length (Nat.le_antisymm hdc.length_le hprefix.length_le)
  · intro h
    have hc : T c := by
      refine hT.of_mem_ancestors ha ((hT.sharedAncestors_prefix ha hb).1.mem ?_)
      rw [h]
      exact c.mem_ancestors_self
    obtain ⟨hca, hcb⟩ := (hT.above_iff ha hb hc).2 (h ▸ List.prefix_rfl)
    refine ⟨hc, hca, hcb, fun d hd hda hdb => ?_⟩
    rw [hT.isAncestorOf_iff hd hc, ← h]
    exact (hT.above_iff ha hb hd).1 ⟨hda, hdb⟩

/-- No common ancestor is found exactly if no table is an ancestor of both. -/
theorem Identified.commonAncestor?_eq_none_iff (hT : Identified T) (ha : T a) (hb : T b) :
    a.commonAncestor? b = none ↔ ¬∃ c, T c ∧ c.isAncestorOf a = true ∧ c.isAncestorOf b = true := by
  constructor
  · rintro hnone ⟨c, hc, habove⟩
    rw [commonAncestor?_eq, List.getLast?_eq_none_iff] at hnone
    have hprefix := (hT.above_iff ha hb hc).1 habove
    rw [hnone] at hprefix
    exact c.ancestors_ne_nil (List.prefix_nil.1 hprefix)
  · intro h
    cases hcommon : a.commonAncestor? b with
    | none => rfl
    | some c =>
      obtain ⟨hc, hca, hcb, -⟩ := (hT.isLowestAbove_iff ha hb).2 hcommon
      exact absurd ⟨c, hc, hca, hcb⟩ h

/-! ## The hierarchy -/

/-- A list leads from a table without a parent down to a table, from parent to child. -/
structure LeadsTo (l : List Table) (b : Table) : Prop where
  first : ∃ top, l.head? = some top ∧ top.parent? = none
  last : l.getLast? = some b
  length : l.length = b.depth + 1
  next : l.IsChain fun p c => c.parent? = some p

/-- The list of the tables above a table leads from a table without parent to the table. -/
theorem leadsTo_ancestors (b : Table) : LeadsTo b.ancestors b :=
  ⟨b.exists_head?_ancestors, b.getLast?_ancestors, b.length_ancestors, b.isChain_ancestors⟩

/-- Tables above tables, as their chains of parents tell. -/
structure Ancestry (T : Table → Prop) : Prop where
  order : IsPartialOrder {t // T t} fun a b => a.1.isAncestorOf b.1 = true
  chain : ∀ b, T b → LeadsTo b.ancestors b
  /-- Depths are counted in 32 bits. -/
  depth : ∀ b, T b → b.depth < UInt32.size
  mem : ∀ a b, T a → T b → (a.isAncestorOf b = true ↔ a ∈ b.ancestors)
  lowest : ∀ a b, T a → T b → ∀ c, a.commonAncestor? b = some c ↔ IsLowestAbove T a b c
  apart : ∀ a b, T a → T b →
    (a.commonAncestor? b = none ↔ ¬∃ c, T c ∧ c.isAncestorOf a = true ∧ c.isAncestorOf b = true)
  comm : ∀ a b, T a → T b → b.commonAncestor? a = a.commonAncestor? b

/-- If ids identify tables, being above is a partial order. The tables above a table are those of its chain, which leads from a
table without a parent down to it. Two tables have a deepest table above both, whichever is named first, unless no table is
above both. -/
theorem ancestry_of_identified (hT : Identified T) : Ancestry T where
  order :=
    { refl := fun a => a.1.isAncestorOf_self
      trans := fun a b c hab hbc => by
        rw [hT.isAncestorOf_iff a.2 b.2] at hab
        rw [hT.isAncestorOf_iff b.2 c.2] at hbc
        exact (hT.isAncestorOf_iff a.2 c.2).2 (hab.trans hbc)
      antisymm := fun a b hab hba => by
        rw [hT.isAncestorOf_iff a.2 b.2] at hab
        rw [hT.isAncestorOf_iff b.2 a.2] at hba
        exact Subtype.ext (ancestors_injective (hab.eq_of_length (Nat.le_antisymm hab.length_le hba.length_le))) }
  chain b _ := b.leadsTo_ancestors
  depth _ hb := hT.depth_lt hb
  mem _ _ ha hb := hT.mem_ancestors_iff ha hb
  lowest _ _ ha hb _ := (hT.isLowestAbove_iff ha hb).symm
  apart _ _ ha hb := hT.commonAncestor?_eq_none_iff ha hb
  comm _ _ ha hb := hT.commonAncestor?_comm ha hb

namespace Shop

def customers : Table := .root ⟨1, "customers", 1, [⟨"cid", 0, ⟨.int, false⟩⟩]⟩

def orders : Table :=
  .child ⟨2, "orders", 2, [⟨"oid", 0, ⟨.int, false⟩⟩, ⟨"cid", 1, ⟨.int, false⟩⟩]⟩ [("cid", "cid")] customers

def items : Table := .child ⟨3, "items", 3, [⟨"iid", 0, ⟨.int, false⟩⟩, ⟨"oid", 1, ⟨.int, false⟩⟩]⟩ [("oid", "oid")] orders

def addresses : Table :=
  .child ⟨4, "addresses", 4, [⟨"aid", 0, ⟨.int, false⟩⟩, ⟨"owner", 1, ⟨.int, false⟩⟩]⟩ [("cid", "owner")] customers

/-- Suppliers are not stored with the customers. -/
def suppliers : Table := .root ⟨5, "suppliers", 1, []⟩

def tables : List Table := [customers, orders, items, addresses, suppliers]

/-- No two tables of the shop have one id. -/
theorem identified_tables : Identified (· ∈ tables) := by
  have hids : ∀ a ∈ tables, ∀ b ∈ tables, a.id = b.id → a = b := by decide +kernel
  have hparents : ∀ a ∈ tables, ∀ p ∈ a.parent?, p ∈ tables := by decide +kernel
  exact ⟨fun a b ha hb => hids a ha b hb, fun a p ha hp => hparents a ha p hp⟩

end Shop

open Shop in
/-- The chains of items and addresses share the customers, those of items and suppliers nothing. -/
theorem ancestry_of_shop :
    Identified (· ∈ tables) ∧ items.ancestors = [customers, orders, items] ∧ items.commonAncestor? addresses = some customers ∧
      items.commonAncestor? suppliers = none ∧ Ancestry (· ∈ tables) :=
  ⟨identified_tables, rfl, by decide +kernel, by decide +kernel, ancestry_of_identified identified_tables⟩

end ClusterPlan.Catalog.Table
