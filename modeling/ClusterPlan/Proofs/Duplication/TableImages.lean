import ClusterPlan.Proofs.Duplication.Ancestry
import ClusterPlan.Proofs.Duplication.Visits
import ClusterPlan.Proofs.Expr.ReferencedTables

/-!
# The tables of a copied expression

A copy of an expression has, column by column, the copies of the table sources of the expression (`Expr.images_copy`), and a
session makes different copies of different sources. So the referenced tables of the copy are the copies of the referenced
tables, and there are as many of them (`referencedTables_of_copy`).
-/

namespace ClusterPlan

open Duplication

variable {s₀ s : Duplication} {input : Context}

/-! ## Columns and their copies -/

namespace Duplication

variable {α β : Type}

/-- An action of a session on an input makes copies of some table sources, one by one. -/
abbrev Images (s₀ : Duplication) (input : Context) (ts : List SourceId) (action : Copying α) (tables : α → List SourceId) : Prop :=
  Keeps (InSession s₀ input []) action fun s x => List.Forall₂ s.Copies ts (tables x)

/-- Another action after it. Copies that the first one made are there after the second one. -/
theorem Images.bind {ts : List SourceId} {tables : α → List SourceId} {action : Copying α} {next : α → Copying β}
    {answer : α → Duplication → β → Prop} (h : Images s₀ input ts action tables)
    (h' : ∀ x, Keeps (InSession s₀ input []) (next x) (answer x)) :
    Keeps (InSession s₀ input []) (action >>= next) fun s y => ∃ x, List.Forall₂ s.Copies ts (tables x) ∧ answer x s y :=
  h.andThen (fun _ _ _ hext hcopies => hcopies.imp fun _ _ hc => hext.copies hc) h'

/-- An action that makes copies of other things. -/
theorem Images.none {action : Copying α} {answer : Duplication → α → Prop} (h : Keeps (InSession s₀ input []) action answer) :
    Images s₀ input [] action fun _ => [] :=
  h.mono fun _ _ _ => .nil

end Duplication

/-- The source of the copy of a column is the image of that of the column. -/
theorem ColumnSource.images_copy (hin : input.Closed) (source : ColumnSource)
    (h : ∀ ref, .entity ref ∈ source.mentions → input.Has ref.2) :
    Images s₀ input source.tables source.copy ColumnSource.tables := by
  cases source with
  | table t =>
    have ht : input.Has t := h ⟨.source, t⟩ List.mem_cons_self
    refine ((keeps_source hin ht).andThen (fun _ _ _ hext hc => hext.copies hc) fun _ => Keeps.pure _).mono ?_
    rintro s _ ⟨t', hc, rfl⟩
    exact .cons hc .nil
  | node id =>
    refine ((Images.none (keeps_nodeNumber id)).bind fun _ => Keeps.pure _).mono ?_
    rintro s _ ⟨id', -, rfl⟩
    exact .nil

mutual

/-- The columns of a copy have the copies of the sources. -/
theorem Expr.images_copy (hin : input.Closed) : ∀ e : Expr, (∀ ref, .entity ref ∈ e.mentions → input.Has ref.2) →
    Images s₀ input e.tables e.copy Expr.tables
  | .constant _ _, _ | .parameter _ _, _ | .aggregate _ none, _ => by
    rw [Expr.copy]
    refine (Keeps.pure _).mono ?_
    rintro s _ rfl
    exact .nil
  | .column c, h => by
    rw [Expr.mentions] at h
    rw [Expr.copy]
    refine ((c.source.images_copy hin h).bind fun _ => Keeps.pure _).mono ?_
    rintro s _ ⟨_, hc, rfl⟩
    exact hc
  | .cast e _, h | .aggregate _ (some e), h => by
    rw [Expr.mentions] at h
    rw [Expr.copy]
    refine ((e.images_copy hin h).bind fun _ => Keeps.pure _).mono ?_
    rintro s _ ⟨_, he, rfl⟩
    exact he
  | .call _ es, h | .logical _ es, h | .special _ es, h => by
    rw [Expr.mentions] at h
    rw [Expr.copy]
    refine ((Expr.images_copyAll hin es h).bind fun _ => Keeps.pure _).mono ?_
    rintro s _ ⟨_, hes, rfl⟩
    exact hes
  | .comparison c l r, h => by
    rw [Expr.mentions] at h
    rw [Expr.copy]
    refine ((Images.none (keeps_condition c.id)).bind fun _ =>
      (l.images_copy hin fun ref href => h ref (List.mem_cons_of_mem _ (List.mem_append_left _ href))).bind fun _ =>
      (r.images_copy hin fun ref href => h ref (List.mem_cons_of_mem _ (List.mem_append_right _ href))).bind fun _ =>
      Keeps.pure _).mono ?_
    rintro s _ ⟨_, -, _, hl, _, hr, rfl⟩
    exact List.rel_append hl hr
  | .inList e es, h => by
    rw [Expr.mentions] at h
    rw [Expr.copy]
    refine ((e.images_copy hin fun ref href => h ref (List.mem_append_left _ href)).bind fun _ =>
      (Expr.images_copyAll hin es fun ref href => h ref (List.mem_append_right _ href)).bind fun _ => Keeps.pure _).mono ?_
    rintro s _ ⟨_, he, _, hes, rfl⟩
    exact List.rel_append he hes
  | .subquery _ p _, h => by
    rw [Expr.mentions] at h
    have hcalls : ∀ m ∈ p.mentions, KeepsCall (InSession s₀ input []) m :=
      fun m hm => keepsCall_inSession s₀ hin fun ref href => h ref (href ▸ hm)
    rw [Expr.copy]
    refine ((Images.none (p.visits_copy _ hcalls)).bind fun _ => Keeps.pure _).mono ?_
    rintro s _ ⟨_, -, rfl⟩
    exact .nil

/-- The sources in the copies of a list of expressions are the images of those in the list. -/
theorem Expr.images_copyAll (hin : input.Closed) : ∀ es : List Expr,
    (∀ ref, .entity ref ∈ Expr.mentionsAll es → input.Has ref.2) →
    Images s₀ input (Expr.tablesAll es) (Expr.copyAll es) Expr.tablesAll
  | [], _ => by
    rw [Expr.copyAll]
    refine (Keeps.pure _).mono ?_
    rintro s _ rfl
    exact .nil
  | e :: es, h => by
    rw [Expr.mentionsAll] at h
    rw [Expr.copyAll]
    refine ((e.images_copy hin fun ref href => h ref (List.mem_append_left _ href)).bind fun _ =>
      (Expr.images_copyAll hin es fun ref href => h ref (List.mem_append_right _ href)).bind fun _ => Keeps.pure _).mono ?_
    rintro s _ ⟨_, he, _, hes, rfl⟩
    exact List.rel_append he hes

end

/-! ## Referenced tables -/

namespace Duplication.InSession

/-- A source that a session has copied is not copied again. -/
theorem source_of_copies (h : InSession s₀ input [] s) {old new : SourceId} (hc : s.Copies old new) :
    source old s = (new, s) := by
  have hnoted : s.sources.lookup old = some new := lookup_of_mem (h.table .source).originals hc
  rw [source_eq, Duplication.fuel, sourceWith_succ, hnoted]

section Images

variable {e e' : Expr} (h : InSession s₀ input [] s) (himages : List.Forall₂ s.Copies e.tables e'.tables)
include h himages

/-- A referenced source has a copy after the expression was copied, so that asking for it changes nothing. -/
theorem copies_source {t : SourceId} (ht : t ∈ e.referencedTables) : s.Copies t (source t s).1 ∧ (source t s).2 = s := by
  obtain ⟨t', hc⟩ := image_of_forall₂ himages (Expr.mem_referencedTables_iff.1 ht)
  rw [h.source_of_copies hc]
  exact ⟨hc, rfl⟩

/-- The copy refers to the images of the referenced sources, and to nothing else. -/
theorem mem_referencedTables_iff (t' : SourceId) :
    t' ∈ e'.referencedTables ↔ ∃ t ∈ e.referencedTables, (source t s).1 = t' := by
  have hcopies : ∀ t t', s.Copies t t' → (t ∈ e.referencedTables ↔ t' ∈ e'.referencedTables) := by
    intro t t' hc
    rw [Expr.mem_referencedTables_iff, Expr.mem_referencedTables_iff]
    exact mem_iff_of_forall₂ h.biUnique himages hc
  constructor
  · intro ht'
    obtain ⟨t, hc⟩ := exists_of_forall₂ himages (Expr.mem_referencedTables_iff.1 ht')
    exact ⟨t, (hcopies t t' hc).2 ht', congrArg Prod.fst (h.source_of_copies hc)⟩
  · rintro ⟨t, ht, rfl⟩
    exact (hcopies t _ (h.copies_source himages ht).1).1 ht

/-- Different tables have different copies. -/
theorem perm_referencedTables : e'.referencedTables.Perm (e.referencedTables.map fun t => (source t s).1) := by
  have hdistinct : (e.referencedTables.map fun t => (source t s).1).Nodup := by
    refine List.Nodup.map_on (fun t ht u hu heq => ?_) e.ascending_referencedTables.nodup
    exact h.original_unique (h.copies_source himages ht).1 (heq ▸ (h.copies_source himages hu).1)
  refine (List.perm_ext_iff_of_nodup e'.ascending_referencedTables.nodup hdistinct).2 fun t' => ?_
  exact (h.mem_referencedTables_iff himages t').trans List.mem_map.symm

end Images

end Duplication.InSession

/-- The referenced tables of any expression are the table sources of the columns that occur in it at any depth of operands,
outside of the plans of subqueries; they stand in ascending order, each once. An expression that is copied in a fresh session on
a context that was reached has as the referenced tables of its copy the sources that the session then has for the referenced
tables of the expression; the session has them already, and there are as many of them. -/
theorem referencedTables_of_copy :
    (∀ (e : Expr) (t : SourceId),
      t ∈ e.referencedTables ↔ ∃ c : ColumnRef, c.source = .table t ∧ (Expr.column c).OccursIn e) ∧
    (∀ e : Expr, Ascending e.referencedTables) ∧
    ∀ (ctx : Context) (supply : Supply), Reached ctx supply →
      ∀ e : Expr, (∀ ref, .entity ref ∈ e.mentions → ctx.Has ref.2) →
        ∀ (e' : Expr) (s : Duplication), e.copy { ctx, supply } = (e', s) →
          (∀ t ∈ e.referencedTables, (source t s).2 = s) ∧
          (∀ t', t' ∈ e'.referencedTables ↔ ∃ t ∈ e.referencedTables, (source t s).1 = t') ∧
          e'.referencedTables.length = e.referencedTables.length := by
  refine ⟨fun e t => Expr.mem_referencedTables_iff.trans Expr.mem_tables_iff, Expr.ascending_referencedTables, ?_⟩
  intro ctx supply hctx e hhas e' s hcopy
  obtain ⟨h, -, himages⟩ := e.images_copy hctx.wellFormed.closed hhas _ (inSession_start hctx.wellFormed supply)
  rw [hcopy] at h himages
  have hperm := h.perm_referencedTables himages
  exact ⟨fun t ht => (h.copies_source himages ht).2, h.mem_referencedTables_iff himages,
    hperm.length_eq.trans (List.length_map _)⟩

namespace CrossedColumns

/-- Three sources of one table. -/
def planted : Context :=
  let ctx := (((Context.withConfig {}).addTree none).2.nodeFor ⟨0⟩ default).2
  (((ctx.addSource ⟨0⟩ "a" true).2.addSource ⟨0⟩ "b" true).2.addSource ⟨0⟩ "c" true).2

theorem reached_planted : Reached planted ⟨2⟩ :=
  .addSource ⟨0⟩ "c" true (.addSource ⟨0⟩ "b" true (.addSource ⟨0⟩ "a" true
    (.nodeFor ⟨0⟩ default (.addTree none (.draw (.start {}))) (by decide)) (by decide)) (by decide)) (by decide)

def column (t : SourceId) : Expr := .column ⟨.table t, 0, "k", none⟩

/-- The second source, the first one and the second one again; the third one is read in a subquery only. -/
def listed : Expr := .inList (column ⟨1⟩) [column ⟨0⟩, column ⟨1⟩, .subquery .exist (.leaf 1 (.tableSource ⟨2⟩)) none]

/-- The sources that the expression mentions are there. -/
theorem has_of_mention : ∀ ref, .entity ref ∈ listed.mentions → planted.Has ref.2 := by
  intro ref href
  simp only [listed, column, Expr.mentions, Expr.mentionsAll, Plan.mentions, LeafOp.mentions, ColumnSource.mentions,
    List.cons_append, List.nil_append, List.append_nil, List.mem_cons, List.not_mem_nil, Mention.of, Mention.entity.injEq,
    reduceCtorEq, or_false, false_or] at href
  obtain rfl | rfl | rfl | rfl := href <;> decide

/-- The copy of the expression, and the session after it. -/
def copied : Expr × Duplication := listed.copy { ctx := planted, supply := ⟨2⟩ }

end CrossedColumns

open CrossedColumns in
/-- The second source is met first, so its copy comes before that of the first one. -/
theorem referencedTables_of_crossed_columns :
    listed.referencedTables = [⟨0⟩, ⟨1⟩] ∧ copied.1.referencedTables = [⟨3⟩, ⟨4⟩] ∧ (source ⟨0⟩ copied.2).1 = ⟨4⟩ ∧
      (∀ t', t' ∈ copied.1.referencedTables ↔ ∃ t ∈ listed.referencedTables, (source t copied.2).1 = t') ∧
      copied.1.referencedTables.length = listed.referencedTables.length := by
  obtain ⟨-, -, hcopy⟩ := referencedTables_of_copy
  obtain ⟨-, himages, hlength⟩ := hcopy planted ⟨2⟩ reached_planted listed has_of_mention copied.1 copied.2 rfl
  refine ⟨rfl, ?_, ?_, himages, hlength⟩
  all_goals
    simp only [copied, listed, column, Expr.copy, Expr.copyAll, Plan.copy]
    decide +kernel

end ClusterPlan
