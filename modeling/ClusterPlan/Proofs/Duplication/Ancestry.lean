import ClusterPlan.Proofs.Duplication.Isolation
import Mathlib.Logic.Relator

/-!
# Where the entities of a session come from

A copy is made after its original, so each entity goes back, copy by copy, to one from before the session. What holds of the
entities from before and passes from an original to its copy therefore holds of all entities (`InSession.inductionOn`). Lists of
originals and lists of copies have the same members, as far as copying tells them apart.
-/

namespace ClusterPlan.Duplication

variable {kind kind' : EntityKind} {ctx : Context} {supply : Supply} {s₀ s s' : Duplication}

/-! ## Pairs of originals and copies -/

section Relations

variable {α β : Type} {R : α → β → Prop} {a : α} {b : β}

/-- In lists that are paired one to one, an element is in one exactly if its partner is in the other. -/
theorem mem_iff_of_forall₂ (hR : Relator.BiUnique R) {as : List α} {bs : List β} (h : List.Forall₂ R as bs) (hab : R a b) :
    a ∈ as ↔ b ∈ bs :=
  List.rel_mem hR hab h

/-- Of two options that are paired one to one, one holds an element exactly if the other holds its partner. -/
theorem eq_some_iff_of_optionRel (hR : Relator.BiUnique R) {x : Option α} {y : Option β} (h : Option.Rel R x y) (hab : R a b) :
    x = some a ↔ y = some b := by
  cases h with
  | none => simp
  | some hr =>
    simp only [Option.some.injEq]
    constructor
    · rintro rfl
      exact hR.2 hr hab
    · rintro rfl
      exact hR.1 hr hab

end Relations

/-- An entity has one copy only. -/
theorem Additive.copy_unique {input : Context} (h : Additive s₀ input s) {old new new' : Ref kind} (hc : s.Copies old new)
    (hc' : s.Copies old new') : new = new' :=
  value_unique (h.table kind).originals hc hc'

/-- Originals and copies are paired one to one. -/
theorem Additive.biUnique {input : Context} (h : Additive s₀ input s) :
    Relator.BiUnique (s.Copies : Ref kind → Ref kind → Prop) :=
  ⟨fun _ _ _ hc hc' => h.original_unique hc hc', fun _ _ _ hc hc' => h.copy_unique hc hc'⟩

/-! ## Copies come after their originals -/

/-- Each copy stands behind its original. -/
def Ordered (s : Duplication) : Prop :=
  ∀ ⦃kind : EntityKind⦄ (old new : Ref kind), s.Copies old new → old.index < new.index

/-- A copy that a call makes stands behind all entities that were there when the call began. -/
theorem Ordered.of_extends (ho : s.Ordered) (h : InSession s₀ s.ctx [] s) (h' : InSession s₀ s.ctx [] s')
    (hext : s.Extends s') : s'.Ordered := by
  intro kind old new hc
  by_cases hnew : s.ctx.Has new
  · obtain ⟨old', hc'⟩ := h.exists_copies hnew (h'.not_has_copy hc)
    rw [h'.original_unique hc (hext.copies hc')]
    exact ho old' new hc'
  · exact Nat.lt_of_lt_of_le (h'.input_has_original hc) (Nat.not_lt.1 hnew)

/-- Between the calls of a session the copies stand in the order in which they were made. -/
theorem Session.ordered (hwf : ctx.WellFormed) (h : Session ctx supply s) : s.Ordered := by
  induction h with
  | start =>
    intro kind old new hc
    cases kind <;> cases hc
  | entity r hs hr ih =>
    have hin := hs.inSession hwf
    obtain ⟨h', hext, -⟩ := keeps_entity hin.wellFormed.closed hr _ hin
    exact ih.of_extends hin h' hext
  | condition c hs ih =>
    have hin := hs.inSession hwf
    obtain ⟨h', hext, -⟩ := keeps_condition c _ hin
    exact ih.of_extends hin h' hext
  | nodeNumber id hs ih =>
    have hin := hs.inSession hwf
    obtain ⟨h', hext, -⟩ := keeps_nodeNumber id _ hin
    exact ih.of_extends hin h' hext
  | copyNumber id hs ih =>
    have hin := hs.inSession hwf
    obtain ⟨h', hext, -⟩ := keeps_copyNumber id _ hin
    exact ih.of_extends hin h' hext

/-- A property of the entities from before the session that passes from originals to copies. -/
theorem InSession.inductionOn {input : Context} (h : InSession s₀ input [] s) (ho : s.Ordered)
    {P : Ref kind → kind.Record → Prop}
    (hold : ∀ r x, s₀.ctx.record? r = some x → P r x)
    (hcopy : ∀ old new x y, s.Copies old new → s.ctx.record? old = some x → s.ctx.record? new = some y →
      s.Faithful kind x y → P old x → P new y) (r : Ref kind) (x : kind.Record) (hx : s.ctx.record? r = some x) : P r x := by
  obtain ⟨n, hn⟩ : ∃ n, r.index = n := ⟨_, rfl⟩
  induction n using Nat.strongRecOn generalizing r x with
  | ind n ih =>
    by_cases hstart : s₀.ctx.Has r
    · rw [h.frame r hstart] at hx
      exact hold r x hx
    · obtain ⟨old, hc⟩ := h.exists_copies (Context.has_of_record? hx) hstart
      obtain ⟨x₀, hx₀, hf⟩ := h.exists_original hc hx
      exact hcopy old r x₀ x hc hx₀ hx hf (ih old.index (hn ▸ ho old r hc) old x₀ hx₀ rfl)

/-! ## References from before and from the session -/

/-- What an entity from before the session refers to is from before the session. -/
theorem InSession.has_reference {input : Context} (h : InSession s₀ input [] s) (hwf : s₀.ctx.WellFormed) {r : Ref kind}
    {x : kind.Record} (hr : s₀.ctx.Has r) (hx : s.ctx.record? r = some x) : ∀ ref ∈ kind.references x, s₀.ctx.Has ref.2 := by
  rw [h.frame r hr] at hx
  exact hwf.closed r x hr hx

/-- What an entity of the session refers to is of the session. -/
theorem InSession.not_has_reference {input : Context} (h : InSession s₀ input [] s) {r : Ref kind} {x : kind.Record}
    (hr : ¬s₀.ctx.Has r) (hx : s.ctx.record? r = some x) : ∀ ref ∈ kind.references x, ¬s₀.ctx.Has ref.2 := by
  intro ref href
  obtain ⟨old, hc⟩ := h.closed hr hx ref href
  exact h.not_has_copy hc

end ClusterPlan.Duplication
