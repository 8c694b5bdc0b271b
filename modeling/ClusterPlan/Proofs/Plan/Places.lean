import ClusterPlan.Proofs.Plan.Ownership

/-!
# Places in plans and expressions

A place is the way to a part of a plan or an expression, from part to part (`Subject.at?`). A renaming moves nothing: what stands
at a place of a renamed plan is what stands there in the plan, renamed (`Subject.at?_rename`).
-/

namespace ClusterPlan

namespace Subject

def rename (ρ : Renaming) : Subject → Subject
  | plan p => plan (p.rename ρ)
  | expr e => expr (e.rename ρ)

/-- What stands at a place. -/
def at? : Subject → List Nat → Option Subject
  | x, [] => some x
  | x, i :: place => x.parts[i]?.bind fun y => y.at? place

variable (ρ : Renaming)

/-- The parts of a renamed node or expression are the renamed parts. -/
theorem parts_rename (x : Subject) : (x.rename ρ).parts = x.parts.map (rename ρ) := by
  rcases x with p | e
  · cases p with
    | leaf id op => rfl
    | probe id op operands =>
      cases op <;> simp [rename, Plan.rename, parts, below, Plan.children, Plan.exprs, Expr.renameAll_eq, Function.comp_def]
    | values id rows =>
      simp [rename, Plan.rename, parts, below, Plan.children, Plan.exprs, Expr.renameRows_eq, Function.comp_def]
    | unary | binary =>
      simp [rename, Plan.rename, parts, below, Plan.children, Plan.exprs, Expr.renameAll_eq, Function.comp_def]
    | aggregate id op phase input =>
      cases phase <;> simp [rename, Plan.rename, Expr.renamePhase, parts, below, Plan.children, Plan.exprs,
        AggregatePhase.operands, Expr.renameAll_eq, Function.comp_def]
    | tableJoins id g input scans => simp [rename, Plan.rename, parts, Plan.renameAll_eq, Function.comp_def]
    | joinTree id g nodes conditions scan =>
      cases scan <;> simp [rename, Plan.rename, parts, below, Plan.children, Plan.exprs, Expr.renameRows_eq,
        Function.comp_def]
    | indexScan s =>
      cases s with
      | single head s =>
        obtain ⟨_, _, _, _, _, _, low, high⟩ := s
        cases low <;> cases high <;> simp [rename, Plan.rename, Scan.rename, parts, Scan.parts, SingleScan.comparands,
          Expr.renameAll_eq, Expr.renameRows_eq, Expr.renameBound, Function.comp_def]
      | intersect head n a b => simp [rename, Plan.rename, Scan.rename, parts, Scan.parts]
  · cases e with
    | aggregate f operand => cases operand <;> simp [rename, Expr.rename, parts, below, Expr.children]
    | _ => simp [rename, Expr.rename, parts, below, Expr.children, Expr.renameAll_eq, Function.comp_def]

/-- At each place of a renamed subject stands what stood there, renamed. -/
theorem at?_rename (x : Subject) (place : List Nat) : (x.rename ρ).at? place = (x.at? place).map (rename ρ) := by
  induction place generalizing x with
  | nil => rfl
  | cons i place ih =>
    rw [at?, parts_rename, List.getElem?_map, at?]
    cases x.parts[i]? with
    | none => rfl
    | some y => exact ih y

end Subject

end ClusterPlan
