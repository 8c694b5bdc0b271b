import ClusterPlan.Expr.Basic

/-!
# Equality of expressions

`Expr.same` compares expressions up to what lies inside of subqueries: it is equality of skeletons (`same_iff`), in which the
plan of a subquery is only its id. So it is an equivalence, although two expressions that are the same may hold different plans.
-/

namespace ClusterPlan.Expr

mutual

/-- An expression with nothing left of the plans of its subqueries but their ids. -/
def skeleton : Expr → Expr
  | constant value type => constant value type
  | parameter position type => parameter position type
  | column c => column c
  | cast operand type => cast operand.skeleton type
  | call f operands => call f (skeletons operands)
  | aggregate f none => aggregate f none
  | aggregate f (some operand) => aggregate f (some operand.skeleton)
  | comparison c left right => comparison c left.skeleton right.skeleton
  | logical op operands => logical op (skeletons operands)
  | inList operand list => inList operand.skeleton (skeletons list)
  | subquery kind plan _ => subquery kind (.leaf plan.id .nothing) none
  | special f operands => special f (skeletons operands)

def skeletons : List Expr → List Expr
  | [] => []
  | e :: es => e.skeleton :: skeletons es

end

mutual

/-- Two expressions are the same exactly if their skeletons are equal. -/
theorem same_iff : ∀ a b : Expr, a.same b = true ↔ a.skeleton = b.skeleton
  -- Expressions of different kinds are never the same. An aggregate is split further, as its operand is optional.
  | constant _ _, b | parameter _ _, b | column _, b | subquery _ _ _, b => by
    cases b with
    | aggregate _ operand => cases operand <;> simp [same, skeleton]
    | _ => simp [same, skeleton]
  | cast e _, b => by
    cases b with
    | aggregate _ operand => cases operand <;> simp [same, skeleton]
    | cast e' _ => simp [same, skeleton, same_iff e e']
    | _ => simp [same, skeleton]
  | call _ es, b => by
    cases b with
    | aggregate _ operand => cases operand <;> simp [same, skeleton]
    | call _ es' => simp [same, skeleton, sameAll_iff es es']
    | _ => simp [same, skeleton]
  | aggregate _ none, b => by
    cases b with
    | aggregate _ operand => cases operand <;> simp [same, skeleton]
    | _ => simp [same, skeleton]
  | aggregate _ (some e), b => by
    cases b with
    | aggregate _ operand =>
      cases operand with
      | none => simp [same, skeleton]
      | some e' => simp [same, skeleton, same_iff e e']
    | _ => simp [same, skeleton]
  | comparison _ l r, b => by
    cases b with
    | aggregate _ operand => cases operand <;> simp [same, skeleton]
    | comparison _ l' r' => simp [same, skeleton, same_iff l l', same_iff r r', and_assoc]
    | _ => simp [same, skeleton]
  | logical _ es, b => by
    cases b with
    | aggregate _ operand => cases operand <;> simp [same, skeleton]
    | logical _ es' => simp [same, skeleton, sameAll_iff es es']
    | _ => simp [same, skeleton]
  | inList e es, b => by
    cases b with
    | aggregate _ operand => cases operand <;> simp [same, skeleton]
    | inList e' es' => simp [same, skeleton, same_iff e e', sameAll_iff es es']
    | _ => simp [same, skeleton]
  | special _ es, b => by
    cases b with
    | aggregate _ operand => cases operand <;> simp [same, skeleton]
    | special _ es' => simp [same, skeleton, sameAll_iff es es']
    | _ => simp [same, skeleton]

/-- Lists of expressions are the same exactly if their skeletons are equal. -/
theorem sameAll_iff : ∀ as bs : List Expr, sameAll as bs = true ↔ skeletons as = skeletons bs
  | [], [] => by simp [sameAll, skeletons]
  | [], _ :: _ => by simp [sameAll, skeletons]
  | _ :: _, [] => by simp [sameAll, skeletons]
  | a :: as, b :: bs => by simp [sameAll, skeletons, same_iff a b, sameAll_iff as bs]

end

/-- An expression is the same as itself. -/
theorem same_refl (e : Expr) : e.same e = true := (same_iff e e).2 rfl

/-- Sameness does not depend on which of two expressions comes first. -/
theorem same_symm {a b : Expr} (h : a.same b = true) : b.same a = true :=
  (same_iff b a).2 ((same_iff a b).1 h).symm

/-- Expressions that are the same as a third one are the same. -/
theorem same_trans {a b c : Expr} (h : a.same b = true) (h' : b.same c = true) : a.same c = true :=
  (same_iff a c).2 (((same_iff a b).1 h).trans ((same_iff b c).1 h'))

/-- Expressions that are the same are the same as the same expressions. -/
theorem same_congr {a b : Expr} (h : a.same b = true) (c : Expr) : a.same c = b.same c :=
  Bool.eq_iff_iff.2 ⟨fun h' => same_trans (same_symm h) h', fun h' => same_trans h h'⟩

end ClusterPlan.Expr
