import ClusterPlan.Scan.Consumption
import ClusterPlan.Proofs.Catalog.Ancestry
import ClusterPlan.Proofs.Context.SourceTables
import ClusterPlan.Proofs.Duplication.Runs

/-!
# The common ancestor of two scans

Two scans have as their common ancestor a source of either that uses the deepest table above the leaf-most tables of both. As
ids identify the tables, the search finds such a source whenever there is one (`map_commonAncestor?_eq_some_iff`), so that the
order in which the sources of the two scans are searched does not matter for the table.
-/

namespace ClusterPlan.Scan

open Catalog.Table (Identified IsLowestAbove)

variable {T : Catalog.Table → Prop} {ctx : Context} {a b : Scan} {t : SourceId}

/-- The sources of a scan that the search for a common ancestor reads are in a context. -/
def Within (ctx : Context) (s : Scan) : Prop := ∀ r ∈ s.head.leafMost :: s.head.tables, ctx.Has r

instance (ctx : Context) (s : Scan) : Decidable (s.Within ctx) := List.decidableBAll _ _

/-- The source that a scan reads is in the context. -/
theorem Within.leafMost (h : a.Within ctx) : ctx.Has a.head.leafMost := h _ List.mem_cons_self

/-- The sources of two scans are in the context. -/
theorem has_of_mem_tables (ha : a.Within ctx) (hb : b.Within ctx) (ht : t ∈ a.head.tables ++ b.head.tables) : ctx.Has t := by
  rcases List.mem_append.1 ht with ht | ht
  · exact ha t (List.mem_cons_of_mem _ ht)
  · exact hb t (List.mem_cons_of_mem _ ht)

/-- The source that is found is the first that uses the common ancestor of the tables. -/
theorem commonAncestor?_eq_some {t : SourceId} (h : commonAncestor? ctx a b = some t) :
    ∃ c, (ctx.tableOf a.head.leafMost).commonAncestor? (ctx.tableOf b.head.leafMost) = some c ∧
      t ∈ a.head.tables ++ b.head.tables ∧ (ctx.tableOf t).id = c.id := by
  rw [commonAncestor?] at h
  split at h
  · rename_i c hc
    exact ⟨c, hc, List.mem_of_find?_eq_some h, by simpa [Catalog.Table.same] using List.find?_some h⟩
  · cases h

/-- Where a source of either scan uses the common ancestor of the tables, one is found. -/
theorem exists_commonAncestor? {c : Catalog.Table}
    (hc : (ctx.tableOf a.head.leafMost).commonAncestor? (ctx.tableOf b.head.leafMost) = some c)
    (ht : t ∈ a.head.tables ++ b.head.tables) (hid : (ctx.tableOf t).id = c.id) : ∃ r, commonAncestor? ctx a b = some r := by
  rw [commonAncestor?, hc, ← Option.isSome_iff_exists, List.find?_isSome]
  exact ⟨t, ht, by simpa [Catalog.Table.same] using hid⟩

section Found

variable (hT : Identified T) (hwf : ctx.WellFormed) (hctx : ctx.TablesIn T) (ha : a.Within ctx) (hb : b.Within ctx)
include hT hwf hctx ha hb

/-- The tables that are found. -/
theorem map_commonAncestor?_eq_some_iff {c : Catalog.Table} :
    (commonAncestor? ctx a b).map ctx.tableOf = some c ↔
      IsLowestAbove T (ctx.tableOf a.head.leafMost) (ctx.tableOf b.head.leafMost) c ∧
        ∃ t ∈ a.head.tables ++ b.head.tables, ctx.tableOf t = c := by
  have hleaf := hctx.tableOf hwf ha.leafMost
  have hleaf' := hctx.tableOf hwf hb.leafMost
  have heq : ∀ {t d}, t ∈ a.head.tables ++ b.head.tables →
      (ctx.tableOf a.head.leafMost).commonAncestor? (ctx.tableOf b.head.leafMost) = some d →
      (ctx.tableOf t).id = d.id → ctx.tableOf t = d := fun ht hd hid =>
    hT.ids _ _ (hctx.tableOf hwf (has_of_mem_tables ha hb ht)) ((hT.isLowestAbove_iff hleaf hleaf').2 hd).mem hid
  rw [hT.isLowestAbove_iff hleaf hleaf', Option.map_eq_some_iff]
  constructor
  · rintro ⟨t, ht, rfl⟩
    obtain ⟨d, hd, hmem, hid⟩ := commonAncestor?_eq_some ht
    obtain rfl := heq hmem hd hid
    exact ⟨hd, t, hmem, rfl⟩
  · rintro ⟨hc, t, hmem, rfl⟩
    obtain ⟨r, hr⟩ := exists_commonAncestor? hc hmem rfl
    obtain ⟨d, hd, hmem', hid⟩ := commonAncestor?_eq_some hr
    obtain rfl := Option.some.inj (hc.symm.trans hd)
    exact ⟨r, hr, heq hmem' hc hid⟩

/-- The table does not depend on which scan is named first. -/
theorem map_commonAncestor?_comm :
    (commonAncestor? ctx b a).map ctx.tableOf = (commonAncestor? ctx a b).map ctx.tableOf := by
  refine Option.ext fun c => ?_
  rw [map_commonAncestor?_eq_some_iff hT hwf hctx hb ha, map_commonAncestor?_eq_some_iff hT hwf hctx ha hb]
  simp only [List.mem_append]
  constructor
  · rintro ⟨hc, t, ht, heq⟩
    exact ⟨hc.symm, t, ht.symm, heq⟩
  · rintro ⟨hc, t, ht, heq⟩
    exact ⟨hc.symm, t, ht.symm, heq⟩

end Found

/-- What the search for a common ancestor of two scans tells about the tables of a set. -/
structure FindsCommonAncestor (T : Catalog.Table → Prop) (ctx : Context) (a b : Scan) : Prop where
  found : ∀ t, commonAncestor? ctx a b = some t → t ∈ a.head.tables ++ b.head.tables ∧
    IsLowestAbove T (ctx.tableOf a.head.leafMost) (ctx.tableOf b.head.leafMost) (ctx.tableOf t)
  missed : commonAncestor? ctx a b = none ↔
    (¬∃ c, T c ∧ c.isAncestorOf (ctx.tableOf a.head.leafMost) = true ∧ c.isAncestorOf (ctx.tableOf b.head.leafMost) = true) ∨
      ∃ c, IsLowestAbove T (ctx.tableOf a.head.leafMost) (ctx.tableOf b.head.leafMost) c ∧
        ∀ t ∈ a.head.tables ++ b.head.tables, ctx.tableOf t ≠ c
  comm : (commonAncestor? ctx b a).map ctx.tableOf = (commonAncestor? ctx a b).map ctx.tableOf

/-- In every reachable context the common ancestor of two scans is a source of either that uses the deepest table above both
leaf-most tables. None is found exactly if no table is above both or no source uses the deepest one. Exchanged, the scans have a
common ancestor with the same table or none as well. -/
theorem findsCommonAncestor_of_reached (hT : Identified T) {supply : Supply} (h : Reached ctx supply) (hctx : ctx.TablesIn T)
    (ha : a.Within ctx) (hb : b.Within ctx) : FindsCommonAncestor T ctx a b where
  found t ht := by
    have htable := (map_commonAncestor?_eq_some_iff hT h.wellFormed hctx ha hb).1 (congrArg (Option.map ctx.tableOf) ht)
    obtain ⟨-, -, hmem, -⟩ := commonAncestor?_eq_some ht
    exact ⟨hmem, htable.1⟩
  missed := by
    have hleaf := hctx.tableOf h.wellFormed ha.leafMost
    have hleaf' := hctx.tableOf h.wellFormed hb.leafMost
    rw [← Option.map_eq_none_iff (f := ctx.tableOf), Option.eq_none_iff_forall_ne_some,
      ← hT.commonAncestor?_eq_none_iff hleaf hleaf']
    simp only [ne_eq, map_commonAncestor?_eq_some_iff hT h.wellFormed hctx ha hb, hT.isLowestAbove_iff hleaf hleaf', not_and,
      not_exists]
    constructor
    · intro hmissed
      cases hcommon : (ctx.tableOf a.head.leafMost).commonAncestor? (ctx.tableOf b.head.leafMost) with
      | none => exact Or.inl rfl
      | some c => exact Or.inr ⟨c, rfl, hmissed c hcommon⟩
    · rintro (hnone | ⟨c, hc, hunused⟩) d hd
      · rw [hnone] at hd
        cases hd
      · rw [hc] at hd
        cases hd
        exact hunused
  comm := map_commonAncestor?_comm hT h.wellFormed hctx ha hb

namespace ShopScans

open Catalog.Table.Shop

/-- Sources of customers, orders, items and addresses in one tree, and of suppliers in another one. -/
def operations : List Operation :=
  [.addTree none, .nodeFor ⟨0⟩ items, .nodeFor ⟨0⟩ addresses, .addTree none, .nodeFor ⟨1⟩ suppliers, .addSource ⟨0⟩ "c" true,
    .addSource ⟨1⟩ "o" true, .addSource ⟨2⟩ "i" true, .addSource ⟨3⟩ "a" true, .addSource ⟨4⟩ "s" true]

def shop : Context := (operations.foldl Operation.apply (Context.withConfig {}, {})).1

def scan (rootMost leafMost : SourceId) : Scan :=
  ofIndex shop 0 ⟨"by_id", .table, shop.tableOf leafMost, [], true⟩ rootMost leafMost []

/-- Items of customers that orders select. -/
def selected : Scan :=
  .intersect { id := 1, rootMost := ⟨0⟩, leafMost := ⟨2⟩, tables := [⟨0⟩, ⟨2⟩, ⟨1⟩] } 1 (scan ⟨0⟩ ⟨2⟩) (scan ⟨1⟩ ⟨1⟩)

theorem reached_shop : Reached shop {} := reached_of_run {} operations (by decide +kernel)

end ShopScans

open ShopScans Catalog.Table.Shop in
/-- The items and the addresses meet in the source of the customers, which the scan of the items has. -/
theorem findsCommonAncestor_of_shop :
    shop.TablesIn (· ∈ tables) ∧ selected.Within shop ∧ (scan ⟨3⟩ ⟨3⟩).Within shop ∧
      commonAncestor? shop (scan ⟨3⟩ ⟨3⟩) selected = some ⟨0⟩ ∧ commonAncestor? shop (scan ⟨4⟩ ⟨4⟩) selected = none ∧
      FindsCommonAncestor (· ∈ tables) shop (scan ⟨3⟩ ⟨3⟩) selected :=
  ⟨by decide +kernel, by decide +kernel, by decide +kernel, by decide +kernel, by decide +kernel,
    findsCommonAncestor_of_reached identified_tables reached_shop (by decide +kernel) (by decide +kernel) (by decide +kernel)⟩

end ClusterPlan.Scan
