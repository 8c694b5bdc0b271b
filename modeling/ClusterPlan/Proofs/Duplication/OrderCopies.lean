import ClusterPlan.Proofs.Duplication.Identity
import ClusterPlan.Proofs.Plan.Places
import ClusterPlan.Proofs.Scan.Renaming
import ClusterPlan.Proofs.Scan.Sortedness

/-!
# Order decisions about copies

Plans and expressions that are copied in one fresh session are renamed by one injective renaming, if no node is among them twice
(`Subject.copies_of_nodup`). So what is decided about a copied scan and copied targets is what was decided about the originals,
and two expressions inside of what was copied are the same exactly if their copies are (`effectiveness_of_copies`).
-/

namespace ClusterPlan

open Duplication

variable {ctx : Context} {supply : Supply}

/-- Copying a plan or an expression renames it. -/
theorem Subject.renames_copy (x : Subject) : Renames ctx supply x.mentions x.copy fun ρ => x.rename ρ := by
  cases x with
  | plan p => exact (p.renames_copy.bind fun _ => Renames.pure _).congr (List.append_nil _).symm fun _ _ => rfl
  | expr e => exact (e.renames_copy.bind fun _ => Renames.pure _).congr (List.append_nil _).symm fun _ _ => rfl

/-- What is copied in one fresh session is renamed by one renaming. -/
theorem Subject.copies_of_nodup (hctx : Reached ctx supply) {xs : List Subject} (hdistinct : (idsOf xs).Nodup)
    (hhas : ∀ x ∈ xs, ∀ ref, .entity ref ∈ x.mentions → ctx.Has ref.2) :
    ∃ ρ : Renaming, ρ.Injective ∧ (xs.mapM Subject.copy { ctx, supply }).1 = xs.map (rename ρ) := by
  have hids : ((xs.flatMap mentions).filterMap Mention.planNode?).Nodup := by
    rw [List.filterMap_flatMap, List.flatMap_congr fun x _ => x.filterMap_mentions]
    exact hdistinct
  have hmentioned : ∀ ref, .entity ref ∈ xs.flatMap mentions → ctx.Has ref.2 := by
    intro ref href
    obtain ⟨x, hx, hmem⟩ := List.mem_flatMap.1 href
    exact hhas x hx ref hmem
  have hcopy := Renames.mapM Subject.renames_copy xs hctx.wellFormed hmentioned { ctx, supply } .start
  have h := hcopy.session.inSession hctx.wellFormed
  exact ⟨_, h.renamingOf_injective,
    hcopy.answer hids (fun id _ => unclaimed_start ctx supply id) _ h.renamingOf_agrees⟩

/-- The targets of a required order are, one by one, the copies of those of another one, in the same directions. -/
inductive RequiredOrder.CopiesTo (copies : List (Subject × Subject)) : RequiredOrder → RequiredOrder → Prop where
  | orderBy {targets targets' : List (Expr × Bool)} :
      List.Forall₂ (fun t t' => (.expr t.1, .expr t'.1) ∈ copies ∧ t'.2 = t.2) targets targets' →
      CopiesTo copies (.orderBy targets) (.orderBy targets')
  | groupBy {targets targets' : List Expr} :
      List.Forall₂ (fun e e' => (.expr e, .expr e') ∈ copies) targets targets' →
      CopiesTo copies (.groupBy targets) (.groupBy targets')
  | distinct {targets targets' : List Expr} :
      List.Forall₂ (fun e e' => (.expr e, .expr e') ∈ copies) targets targets' →
      CopiesTo copies (.distinct targets) (.distinct targets')
  | minMax {e e' : Expr} : (.expr e, .expr e') ∈ copies → CopiesTo copies (.minMax e) (.minMax e')

section Renamed

variable {ρ : Renaming} {xs : List Subject}

/-- Beside each subject stands its renamed one. -/
theorem Subject.eq_rename_of_mem_zip {x x' : Subject} (h : (x, x') ∈ xs.zip (xs.map (rename ρ))) : x' = x.rename ρ := by
  obtain ⟨i, hi⟩ := List.getElem?_of_mem h
  rw [List.getElem?_zip_eq_some, List.getElem?_map] at hi
  obtain ⟨hx, hx'⟩ := hi
  rw [hx] at hx'
  exact (Option.some.inj hx').symm

/-- Copies of targets under one renaming are renamed targets. -/
theorem RequiredOrder.CopiesTo.eq_rename {required required' : RequiredOrder}
    (h : required.CopiesTo (xs.zip (xs.map (Subject.rename ρ))) required') : required' = required.rename ρ := by
  have hexpr : ∀ e e' : Expr, (Subject.expr e, Subject.expr e') ∈ xs.zip (xs.map (Subject.rename ρ)) → e' = e.rename ρ :=
    fun e e' hmem => Subject.expr.inj (Subject.eq_rename_of_mem_zip hmem)
  have hlist : ∀ targets targets' : List Expr,
      List.Forall₂ (fun e e' => (Subject.expr e, Subject.expr e') ∈ xs.zip (xs.map (Subject.rename ρ))) targets targets' →
        targets' = targets.map (·.rename ρ) := by
    intro targets targets' hall
    induction hall with
    | nil => rfl
    | cons hmem _ ih => rw [List.map_cons, ← hexpr _ _ hmem, ← ih]
  cases h with
  | @orderBy targets targets' hall =>
    refine congrArg RequiredOrder.orderBy ?_
    induction hall with
    | nil => rfl
    | cons hmem _ ih =>
      rw [List.map_cons, ← ih, renameDirected, ← hexpr _ _ hmem.1, ← hmem.2]
  | groupBy hall => rw [RequiredOrder.rename, hlist _ _ hall]
  | distinct hall => rw [RequiredOrder.rename, hlist _ _ hall]
  | minMax hmem => rw [RequiredOrder.rename, ← hexpr _ _ hmem]

end Renamed

/-- Plans and expressions are copied in a fresh session, in any order, and no node is among them twice. Then each of them has a
copy; the copy of a scan has, for a required order of copied targets, the effectiveness and the direction that the scan has for
the targets; and two expressions anywhere inside of the originals are the same exactly if those at the same places of the copies
are. -/
theorem effectiveness_of_copies (hctx : Reached ctx supply) {xs : List Subject} (hdistinct : (Subject.idsOf xs).Nodup)
    (hhas : ∀ x ∈ xs, ∀ ref, .entity ref ∈ x.mentions → ctx.Has ref.2) :
    let ys := (xs.mapM Subject.copy { ctx, supply }).1
    ys.length = xs.length ∧
      (∀ s x', (.plan (.indexScan s), x') ∈ xs.zip ys → ∃ s', x' = .plan (.indexScan s') ∧
        ∀ required required' : RequiredOrder, required.CopiesTo (xs.zip ys) required' →
          s'.effectiveness required' = s.effectiveness required) ∧
      ∀ x x' y y' place place' a b, (x, x') ∈ xs.zip ys → (y, y') ∈ xs.zip ys →
        x.at? place = some (.expr a) → y.at? place' = some (.expr b) →
        ∃ a' b', x'.at? place = some (.expr a') ∧ y'.at? place' = some (.expr b') ∧ a'.same b' = a.same b := by
  obtain ⟨ρ, hρ, hys⟩ := Subject.copies_of_nodup hctx hdistinct hhas
  simp only [hys]
  refine ⟨List.length_map _, fun s x' hs => ?_, fun x x' y y' place place' a b hx hy ha hb => ?_⟩
  · obtain rfl := Subject.eq_rename_of_mem_zip hs
    refine ⟨s.rename ρ, by rw [Subject.rename, Plan.rename], fun required required' hcopies => ?_⟩
    rw [hcopies.eq_rename]
    exact Scan.effectiveness_rename hρ s required
  · obtain rfl := Subject.eq_rename_of_mem_zip hx
    obtain rfl := Subject.eq_rename_of_mem_zip hy
    refine ⟨a.rename ρ, b.rename ρ, ?_, ?_, Expr.same_rename hρ a b⟩
    · rw [Subject.at?_rename, ha]
      rfl
    · rw [Subject.at?_rename, hb]
      rfl

namespace ReversedScan

/-- The targets and the scan, in the order in which they are copied. -/
def subjects : List Subject := [.expr (column "b"), .expr (column "a"), .plan (.indexScan scan), .expr (column "c")]

/-- The source that the scan reads. -/
def planted : Context := ((((Context.withConfig {}).addTree none).2.nodeFor ⟨0⟩ default).2.addSource ⟨0⟩ "t" true).2

def copiedColumn (name : String) : Expr := .column ⟨.table ⟨1⟩, 0, name, none⟩

def copiedScan : Scan :=
  .single { id := 2, rootMost := ⟨1⟩, leafMost := ⟨1⟩, tables := [⟨1⟩] }
    { index := ⟨"x", .table, default, [], false⟩, includeUnion := false, ascending := [true, false, true],
      ordering := [copiedColumn "a", copiedColumn "b", copiedColumn "c"], equality := [.long 1] }

def copiedTargets : List (Expr × Bool) := [(copiedColumn "b", true), (copiedColumn "a", true), (copiedColumn "c", false)]

theorem reached_planted : Reached planted ⟨2⟩ :=
  .addSource ⟨0⟩ "t" true (.nodeFor ⟨0⟩ default (.addTree none (.draw (.start {}))) (by decide)) (by decide)

/-- The entities that the subjects mention are there. -/
theorem has_of_subjects : ∀ x ∈ subjects, ∀ ref, .entity ref ∈ x.mentions → planted.Has ref.2 := by
  have hsource : ∀ x ∈ subjects, ∀ ref, .entity ref ∈ x.mentions → ref = ⟨.source, ⟨0⟩⟩ := by
    simp [subjects, column, scan, Subject.mentions, Expr.mentions, ColumnSource.mentions, Plan.mentions, Scan.mentions,
      Expr.mentionsAll, Expr.mentionsRows, Expr.mentionsBound, Expr.long, ScanHead.mentions]
  intro x hx ref href
  rw [hsource x hx ref href]
  decide

/-- What the copies of the subjects are, with the numbers that they got. -/
theorem copies_subjects : (subjects.mapM Subject.copy { ctx := planted, supply := ⟨2⟩ }).1 =
    [.expr (copiedColumn "b"), .expr (copiedColumn "a"), .plan (.indexScan copiedScan), .expr (copiedColumn "c")] := by
  simp only [subjects, scan, column, Expr.long, List.mapM_cons, List.mapM_nil, Subject.copy, Plan.copy, Scan.copy_single, Expr.copy,
    Expr.copyAll, Expr.copyRows, Expr.copyBound]
  rfl

end ReversedScan

open ReversedScan in
/-- The copy of a scan that has to run backwards for some targets has to run backwards for their copies. -/
theorem effectiveness_of_reversed_copy :
    (Subject.idsOf subjects).Nodup ∧ (∀ x ∈ subjects, ∀ ref, .entity ref ∈ x.mentions → planted.Has ref.2) ∧
      (subjects.mapM Subject.copy { ctx := planted, supply := ⟨2⟩ }).1 =
        [.expr (copiedColumn "b"), .expr (copiedColumn "a"), .plan (.indexScan copiedScan), .expr (copiedColumn "c")] ∧
      scan.effectiveness (.orderBy targets) = (.sorted, true) ∧
      copiedScan.effectiveness (.orderBy copiedTargets) = scan.effectiveness (.orderBy targets) := by
  have hdistinct : (Subject.idsOf subjects).Nodup := by decide
  obtain ⟨-, hscan, -⟩ := effectiveness_of_copies reached_planted hdistinct has_of_subjects
  simp only [copies_subjects] at hscan
  obtain ⟨s', heq, horder⟩ := hscan scan (.plan (.indexScan copiedScan)) (by simp [subjects])
  cases heq
  refine ⟨hdistinct, has_of_subjects, copies_subjects, by decide, horder _ _ (.orderBy ?_)⟩
  simp [subjects, targets, copiedTargets]

end ClusterPlan
