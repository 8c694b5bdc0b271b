import ClusterPlan.Expr.Evaluation
import ClusterPlan.Proofs.Plan.Subjects
import Mathlib.Data.List.Induction

/-!
# Which expressions are constants

A constant under casts has the value that the casts, the innermost one first, make of it. No other expression has a value, but
its operands are looked at all the same, from left to right and however deep they are, and the first of them that complains
ends the search: a predicate that only an index can answer, or a constant with a cast that fails (`evaluateConstant_iff`).
-/

namespace ClusterPlan

/-- A constant under some casts, the innermost one first. -/
def Value.castAll (v : Value) (types : List TypeInstance) : Except TypeError Value :=
  types.foldlM (fun v type => v.cast type.dataType) v

/-- The outermost cast is made last. -/
theorem Value.castAll_append_singleton (v : Value) (types : List TypeInstance) (last : TypeInstance) :
    v.castAll (types ++ [last]) = v.castAll types >>= fun w => w.cast last.dataType := by
  rw [castAll, List.foldlM_append]
  exact congrArg _ (funext fun w => bind_pure _)

namespace Expr

/-- An expression under some casts, the innermost one first. -/
def castAll (e : Expr) (types : List TypeInstance) : Expr := types.foldl cast e

/-- The operands that are looked at: not those of a predicate that only an index can answer, and no plan of a subquery. -/
def inspected : Expr → List Expr
  | special _ _ => []
  | e => e.children

/-- An expression and all that is looked at below it, from left to right. -/
def visited (e : Expr) : List Expr :=
  (Subject.expr e).fold fun x below =>
    match x with
    | .plan _ => []
    | .expr (special f operands) => [special f operands]
    | .expr e => e :: below.flatten

/-- Expressions that are the cause of an error themselves. -/
inductive Complains : Expr → PlanError → Prop where
  | special (f : SpecialFunction) (operands : List Expr) : Complains (special f operands) (unsupportedSpecial f)
  | cast {v : Value} {types : List TypeInstance} {err : TypeError} (type : TypeInstance) : v.castAll types = .error err →
      Complains ((constant v type).castAll types) (.type err)

/-! ## Constants under casts -/

/-- What the casts make of a constant; nothing where something else stands under the casts. -/
def casted? : Expr → Option (Except TypeError Value)
  | constant v _ => some (.ok v)
  | cast operand type => operand.casted?.map (· >>= fun v => v.cast type.dataType)
  | _ => none

/-- What is reported of the casts of a constant. -/
def report : Except TypeError Value → Except PlanError (Option Value)
  | .ok v => .ok (some v)
  | .error err => .error (.type err)

/-- A failing cast is reported as it is, and no cast makes a value of an expression without one. -/
theorem evaluateConstant_castAll (e : Expr) (types : List TypeInstance) :
    (e.castAll types).evaluateConstant =
      match e.evaluateConstant with
      | .ok (some v) => report (v.castAll types)
      | other => other := by
  induction types generalizing e with
  | nil =>
    rw [castAll, List.foldl_nil]
    rcases e.evaluateConstant with _ | _ | v <;> rfl
  | cons type types ih =>
    have hcast : (cast e type).castAll types = e.castAll (type :: types) := rfl
    rw [← hcast, ih, evaluateConstant]
    rcases e.evaluateConstant with _ | _ | v
    · rfl
    · rfl
    · have hcasts : v.castAll (type :: types) = v.cast type.dataType >>= fun w => w.castAll types := List.foldlM_cons
      simp only [hcasts]
      cases v.cast type.dataType <;> rfl

/-- The last type is that of the outermost cast. -/
theorem castAll_append_singleton (e : Expr) (types : List TypeInstance) (last : TypeInstance) :
    e.castAll (types ++ [last]) = cast (e.castAll types) last := by
  rw [castAll, List.foldl_append]
  rfl

/-- What the casts of a constant make of it is the value after all casts. -/
theorem casted?_castAll (v : Value) (type : TypeInstance) (types : List TypeInstance) :
    ((constant v type).castAll types).casted? = some (v.castAll types) := by
  induction types using List.reverseRecOn with
  | nil => rfl
  | append_singleton types last ih =>
    rw [castAll_append_singleton, casted?, ih, Value.castAll_append_singleton, Option.map_some]

/-- Casts make something of an expression exactly if it is a constant under casts. -/
theorem casted?_eq_some_iff {e : Expr} {r : Except TypeError Value} :
    e.casted? = some r ↔ ∃ v type types, e = (constant v type).castAll types ∧ v.castAll types = r := by
  constructor
  · induction e using Expr.inductionOn generalizing r with
    | h e ih =>
      intro h
      cases e with
      | constant v type => exact ⟨v, type, [], rfl, Option.some.inj h⟩
      | cast operand last =>
        obtain ⟨_, hoperand, rfl⟩ := Option.map_eq_some_iff.1 h
        obtain ⟨v, type, types, rfl, rfl⟩ := ih operand (List.mem_singleton_self operand) hoperand
        exact ⟨v, type, types ++ [last], (castAll_append_singleton _ _ _).symm, Value.castAll_append_singleton _ _ _⟩
      | _ => cases h
  · rintro ⟨v, type, types, rfl, rfl⟩
    exact casted?_castAll v type types

/-- Casts make nothing of what is no constant under casts. -/
theorem casted?_eq_none_iff {e : Expr} : e.casted? = none ↔ ¬∃ v type types, e = (constant v type).castAll types := by
  rw [Option.eq_none_iff_forall_ne_some]
  constructor
  · rintro h ⟨v, type, types, rfl⟩
    exact h _ (casted?_castAll v type types)
  · intro h r hr
    obtain ⟨v, type, types, heq, -⟩ := casted?_eq_some_iff.1 hr
    exact h ⟨v, type, types, heq⟩

/-- The casts of a constant are evaluated to what is reported of them. -/
theorem evaluateConstant_of_casted? {e : Expr} {r : Except TypeError Value} (h : e.casted? = some r) :
    e.evaluateConstant = report r := by
  obtain ⟨v, type, types, rfl, rfl⟩ := casted?_eq_some_iff.1 h
  rw [evaluateConstant_castAll, evaluateConstant]

/-! ## Complaints -/

/-- The failure of a cast as an error of the planner. -/
def failure? : Except TypeError Value → Option PlanError
  | .ok _ => none
  | .error err => some (.type err)

/-- The error that an expression is the cause of. -/
def complaint? : Expr → Option PlanError
  | special f _ => some (unsupportedSpecial f)
  | e => e.casted?.bind failure?

/-- A constant under casts complains exactly about a cast that fails. -/
theorem complaint?_of_casted? {e : Expr} {r : Except TypeError Value} (h : e.casted? = some r) : e.complaint? = failure? r := by
  cases e with
  | special f operands => cases h
  | _ => exact congrArg (·.bind failure?) h

/-- A constant under casts, one of which fails, is the cause of that error. -/
theorem complains_of_failure? {e : Expr} {err : PlanError} (h : e.casted?.bind failure? = some err) : Complains e err := by
  obtain ⟨r, hr, hfailure⟩ := Option.bind_eq_some_iff.1 h
  obtain ⟨v, type, types, rfl, hcasts⟩ := casted?_eq_some_iff.1 hr
  cases r with
  | ok w => cases hfailure
  | error failed => exact Option.some.inj hfailure ▸ .cast type hcasts

/-- The complaint that is looked for is the error that the expression is the cause of. -/
theorem complaint?_eq_some_iff {e : Expr} {err : PlanError} : e.complaint? = some err ↔ Complains e err := by
  constructor
  · intro h
    cases e with
    | special f operands => exact Option.some.inj h ▸ .special f operands
    | _ => exact complains_of_failure? h
  · rintro (⟨f, operands⟩ | ⟨type, hcasts⟩)
    · rfl
    · rw [complaint?_of_casted? (casted?_castAll _ _ _), hcasts, failure?]

/-- Where no complaint is found the expression is the cause of no error. -/
theorem complaint?_eq_none_iff {e : Expr} : e.complaint? = none ↔ ∀ err, ¬Complains e err := by
  simp only [Option.eq_none_iff_forall_ne_some, ne_eq, complaint?_eq_some_iff]

/-! ## The search -/

/-- The search visits an expression before its inspected operands. -/
theorem visited_eq (e : Expr) : e.visited = e :: e.inspected.flatMap visited := by
  rw [visited, Subject.fold_eq]
  cases e with
  | special f operands => rfl
  | subquery kind plan type =>
    rw [Subject.below, List.map_singleton, Subject.fold_eq]
    rfl
  | _ => exact congrArg (List.cons _ ·.flatten) (List.map_map ..)

/-- The first complaint that the search through some expressions meets. -/
def firstOf? (es : List Expr) : Option PlanError := (es.flatMap visited).findSome? complaint?

/-- The search through some expressions starts with the first one. -/
theorem firstOf?_cons (e : Expr) (es : List Expr) :
    firstOf? (e :: es) = (e.visited.findSome? complaint?).or (firstOf? es) := by
  rw [firstOf?, List.flatMap_cons, List.findSome?_append, firstOf?]

/-- The first complaint of an expression is its own one, or the first of its inspected operands. -/
theorem findSome?_visited (e : Expr) : e.visited.findSome? complaint? = e.complaint?.or (firstOf? e.inspected) := by
  rw [visited_eq, List.findSome?_cons, firstOf?]
  cases e.complaint? <;> rfl

/-- The first complaint of a cast is its own one, or the first of its operand. -/
theorem findSome?_visited_cast (operand : Expr) (type : TypeInstance) :
    (cast operand type).visited.findSome? complaint? =
      (cast operand type).complaint?.or (operand.visited.findSome? complaint?) := by
  rw [findSome?_visited]
  exact congrArg _ ((firstOf?_cons operand []).trans Option.or_none)

/-- What is reported of an expression: the first complaint, or else what its casts make of a constant. -/
def outcome (e : Expr) : Except PlanError (Option Value) :=
  (e.visited.findSome? complaint?).elim (.ok (e.casted?.bind Except.toOption)) .error

/-- A cast that fails makes every cast around it fail in the same way. -/
theorem findSome?_visited_of_casted? {e : Expr} {r : Except TypeError Value} (h : e.casted? = some r) :
    e.visited.findSome? complaint? = failure? r := by
  induction e using Expr.inductionOn generalizing r with
  | h e ih =>
    cases e with
    | constant v type => exact Option.some.inj h ▸ rfl
    | cast operand type =>
      rw [findSome?_visited_cast, complaint?_of_casted? h]
      obtain ⟨r', hoperand, rfl⟩ := Option.map_eq_some_iff.1 h
      rw [ih operand (List.mem_singleton_self operand) hoperand]
      cases r' with
      | ok v => exact Option.or_none
      | error err => rfl
    | _ => cases h

/-- The outcome for a constant under casts is what is reported of them. -/
theorem outcome_of_casted? {e : Expr} {r : Except TypeError Value} (h : e.casted? = some r) : e.outcome = report r := by
  rw [outcome, findSome?_visited_of_casted? h, h]
  cases r <;> rfl

/-- Checking some expressions ends with the first complaint among them. -/
theorem checkAll_eq {es : List Expr} (h : ∀ e ∈ es, e.evaluateConstant = e.outcome) :
    checkAll es = (firstOf? es).elim (.ok ()) .error := by
  induction es with
  | nil => rfl
  | cons e es ih =>
    obtain ⟨he, hes⟩ := List.forall_mem_cons.1 h
    rw [checkAll, he, ih hes, firstOf?_cons, outcome]
    cases e.visited.findSome? complaint? <;> rfl

/-- An expression of another kind has no value, and its operands are looked at one after the other. -/
theorem evaluateConstant_of_operands {e : Expr} (ih : ∀ operand ∈ e.children, operand.evaluateConstant = operand.outcome)
    (hinspected : e.inspected = e.children) (hcomplaint : e.complaint? = none) (hcasted : e.casted? = none)
    (heval : e.evaluateConstant = (checkAll e.children).map fun _ => none) : e.evaluateConstant = e.outcome := by
  rw [heval, checkAll_eq ih, outcome, findSome?_visited, hinspected, hcomplaint, hcasted, Option.none_or]
  cases firstOf? e.children <;> rfl

/-- Evaluation reports the outcome that is described. -/
theorem evaluateConstant_eq (e : Expr) : e.evaluateConstant = e.outcome := by
  induction e using Expr.inductionOn with
  | h e ih =>
    cases e with
    | constant v type => rfl
    | cast operand type =>
      -- Over a constant under casts the outcome is what the casts make of it; over anything else it is that of the operand.
      cases hoperand : operand.casted? with
      | some r =>
        have hcast : (cast operand type).casted? = some (r >>= fun v => v.cast type.dataType) := congrArg (Option.map _) hoperand
        rw [evaluateConstant_of_casted? hcast, outcome_of_casted? hcast]
      | none =>
        have hcast : (cast operand type).casted? = none := congrArg (Option.map _) hoperand
        have hcomplaint : (cast operand type).complaint? = none := congrArg (Option.bind · failure?) hcast
        rw [evaluateConstant, ih operand (List.mem_singleton_self operand), outcome, outcome, findSome?_visited_cast, hcomplaint,
          hcast, hoperand, Option.none_or]
        cases operand.visited.findSome? complaint? <;> rfl
    | special f operands => rfl
    | parameter | column | subquery | call | logical => exact evaluateConstant_of_operands ih rfl rfl rfl rfl
    | aggregate f operand =>
      refine evaluateConstant_of_operands ih rfl rfl rfl ?_
      cases operand with
      | none => rfl
      | some operand =>
        rw [evaluateConstant, children, Option.toList, checkAll]
        cases operand.evaluateConstant <;> rfl
    | comparison c left right =>
      refine evaluateConstant_of_operands ih rfl rfl rfl ?_
      rw [evaluateConstant, children, checkAll, checkAll]
      cases left.evaluateConstant <;> cases right.evaluateConstant <;> rfl
    | inList operand list =>
      refine evaluateConstant_of_operands ih rfl rfl rfl ?_
      rw [evaluateConstant, children, checkAll]
      cases operand.evaluateConstant <;> rfl

/-- An expression has a value exactly if it is a constant under casts that succeed, the innermost one first. It has an error
exactly if one of the expressions that are looked at complains, and the error is that of the first one. Any other expression has
no value. -/
theorem evaluateConstant_iff (e : Expr) :
    (∀ v, e.evaluateConstant = .ok (some v) ↔
        ∃ c type types, e = (constant c type).castAll types ∧ c.castAll types = .ok v) ∧
      (∀ err, e.evaluateConstant = .error err ↔
        ∃ before x after, e.visited = before ++ x :: after ∧ Complains x err ∧ ∀ y ∈ before, ∀ other, ¬Complains y other) ∧
      (e.evaluateConstant = .ok none ↔
        (¬∃ c type types, e = (constant c type).castAll types) ∧ ∀ x ∈ e.visited, ∀ err, ¬Complains x err) := by
  rw [← casted?_eq_none_iff]
  simp only [← complaint?_eq_none_iff]
  simp only [← casted?_eq_some_iff, ← complaint?_eq_some_iff]
  refine ⟨fun v => ?_, fun err => ?_, ?_⟩
  · cases hcasted : e.casted? with
    | some r =>
      rw [evaluateConstant_of_casted? hcasted]
      cases r <;> simp [report]
    | none =>
      rw [evaluateConstant_eq, outcome, hcasted]
      cases e.visited.findSome? complaint? <;> simp
  · rw [evaluateConstant_eq, ← List.findSome?_eq_some_iff, outcome]
    cases e.visited.findSome? complaint? <;> simp
  · rw [← List.findSome?_eq_none_iff]
    cases hcasted : e.casted? with
    | some r =>
      rw [evaluateConstant_of_casted? hcasted]
      cases r <;> simp [report]
    | none =>
      rw [evaluateConstant_eq, outcome, hcasted]
      cases e.visited.findSome? complaint? <;> simp

end Expr

end ClusterPlan
