/-!
# Lists of steps

What an element of a list does and needs may depend on the state that it is reached in: `Along` says something of each element
in its state, `Throughout` of all states that the list leads through.
-/

namespace ClusterPlan

section Steps

variable {σ α : Type} {step : σ → α → σ} {p q V : σ → α → Prop} {P I : σ → Prop}

/-- Each element of a list is as told in the state in which it is reached. -/
def Along (step : σ → α → σ) (p : σ → α → Prop) : σ → List α → Prop
  | _, [] => True
  | st, a :: as => p st a ∧ Along step p (step st a) as

/-- All states that a list leads through are as told, the first and the last among them. -/
def Throughout (step : σ → α → σ) (P : σ → Prop) : σ → List α → Prop
  | st, [] => P st
  | st, a :: as => P st ∧ Throughout step P (step st a) as

instance Along.decidable [∀ st a, Decidable (p st a)] : (st : σ) → (as : List α) → Decidable (Along step p st as)
  | _, [] => inferInstanceAs (Decidable True)
  | st, a :: as =>
    have := Along.decidable (step st a) as
    inferInstanceAs (Decidable (p st a ∧ Along step p (step st a) as))

/-- What may always be done may be done along every list of actions. -/
theorem Along.of_forall (h : ∀ st a, p st a) (st : σ) (as : List α) : Along step p st as := by
  induction as generalizing st with
  | nil => trivial
  | cons a as ih => exact ⟨h st a, ih (step st a)⟩

/-- One more element is reached where the list ends. -/
theorem along_concat {st : σ} {as : List α} {a : α} :
    Along step p st (as ++ [a]) ↔ Along step p st as ∧ p (as.foldl step st) a := by
  induction as generalizing st with
  | nil => simp only [List.nil_append, Along, List.foldl_nil, and_true, true_and]
  | cons b as ih => rw [List.cons_append, Along, Along, List.foldl_cons, ih, and_assoc]

/-- What holds throughout a run holds at its start. -/
theorem Throughout.first {st : σ} {as : List α} (h : Throughout step P st as) : P st := by
  cases as with
  | nil => exact h
  | cons a as => exact h.1

/-- A weaker property holds throughout as well. -/
theorem Throughout.mono (hPQ : ∀ st, P st → I st) {st : σ} {as : List α} (h : Throughout step P st as) :
    Throughout step I st as := by
  induction as generalizing st with
  | nil => exact hPQ st h
  | cons a as ih => exact ⟨hPQ st h.1, ih h.2⟩

/-- What each step keeps holds in all states. -/
theorem Along.throughout (hstep : ∀ st a, I st → p st a → I (step st a)) {st : σ} {as : List α} (h : Along step p st as)
    (hst : I st) : Throughout step I st as := by
  induction as generalizing st with
  | nil => exact hst
  | cons a as ih => exact ⟨hst, ih h.2 (hstep st a hst h.1)⟩

/-- What holds throughout a run holds at its end. -/
theorem Throughout.last {st : σ} {as : List α} (h : Throughout step P st as) : P (as.foldl step st) := by
  induction as generalizing st with
  | nil => exact h
  | cons a as ih => exact ih h.2

/-- If one more step keeps a property exactly if the step is as told, all states have it exactly if all steps are as told. -/
theorem throughout_iff_along (hI : ∀ st a, I st → V st a → I (step st a))
    (hstep : ∀ st a, I st → V st a → P st → (P (step st a) ↔ q st a)) {st : σ} {as : List α} (h : Along step V st as)
    (hst : I st) (hP : P st) : Throughout step P st as ↔ Along step q st as := by
  induction as generalizing st with
  | nil => exact ⟨fun _ => trivial, fun _ => hP⟩
  | cons a as ih =>
    have hiff := hstep st a hst h.1 hP
    constructor
    · intro hall
      have hnext := hall.2.first
      exact ⟨hiff.1 hnext, (ih h.2 (hI st a hst h.1) hnext).1 hall.2⟩
    · intro hall
      have hnext := hiff.2 hall.1
      exact ⟨hP, (ih h.2 (hI st a hst h.1) hnext).2 hall.2⟩

end Steps

end ClusterPlan
