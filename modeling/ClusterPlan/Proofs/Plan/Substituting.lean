import ClusterPlan.Proofs.Plan.Refilling

/-!
# Substitution goes through what lies below

However a plan is made up, a substitution in it is one equation: all that lies directly below a node is replaced one after the
other, the inputs before the operands, and put where it was (`Subject.substituteWith_plan`); and the same holds of what lies
below an expression (`Subject.substituteOperandsWith_expr`).
-/

namespace ClusterPlan

variable {σ α β γ : Type}

/-! ## Actions one after the other -/

section Actions

/-- There are as many answers as calls. -/
theorem length_run_mapM (f : α → StateM σ β) (xs : List α) (st : σ) : ((xs.mapM f).run st).1.length = xs.length := by
  induction xs generalizing st with
  | nil => rfl
  | cons x xs ih =>
    rw [List.mapM_cons]
    exact congrArg (· + 1) (ih ((f x).run st).2)

/-- What follows a list of actions gets as many results as there are actions. -/
theorem mapM_bind_congr {f : α → StateM σ β} {xs : List α} {g h : List β → StateM σ γ}
    (hgh : ∀ ys, ys.length = xs.length → g ys = h ys) : xs.mapM f >>= g = xs.mapM f >>= h := by
  refine StateT.ext fun st => ?_
  have hrun (k : List β → StateM σ γ) :
      (xs.mapM f >>= k).run st = (k ((xs.mapM f).run st).1).run ((xs.mapM f).run st).2 := rfl
  rw [hrun, hrun, hgh _ (length_run_mapM f xs st)]

/-- Changing each answer is changing all answers at the end. -/
theorem mapM_map_comp (f : α → StateM σ β) (g : β → γ) (xs : List α) :
    xs.mapM (fun x => g <$> f x) = List.map g <$> xs.mapM f := by
  induction xs with
  | nil => simp
  | cons x xs ih => simp [List.mapM_cons, ih, map_bind]

end Actions

/-! ## One equation -/

/-- Replaces the expressions of a subject, given how to go on with the operands of what takes the place of one. -/
def Subject.substituteWith (s : Substitution σ) (again : Expr → StateM σ Expr) : Subject → StateM σ Subject
  | plan p => plan <$> p.substituteWith s again
  | expr e => expr <$> e.substituteWith s again

variable (s : Substitution σ) (again : Expr → StateM σ Expr)

/-- In a list of expressions each is substituted in turn. -/
theorem Expr.substituteAllWith_eq (es : List Expr) :
    Expr.substituteAllWith s again es = es.mapM (Expr.substituteWith s again) := by
  induction es with
  | nil => rfl
  | cons e es ih =>
    rw [List.mapM_cons, ← ih]
    rfl

/-- In lists of expressions each is substituted in turn, and the lists keep their lengths. -/
theorem Expr.substituteRowsWith_eq (rows : List (List Expr)) :
    Expr.substituteRowsWith s again rows =
      (rows.map List.length).splitLengths <$> rows.flatten.mapM (Expr.substituteWith s again) := by
  induction rows with
  | nil => rfl
  | cons row rows ih =>
    have hcons : Expr.substituteRowsWith s again (row :: rows) =
        Expr.substituteAllWith s again row >>= fun row => (row :: ·) <$> Expr.substituteRowsWith s again rows := rfl
    rw [hcons, Expr.substituteAllWith_eq, ih, List.flatten_cons, List.mapM_append, map_bind]
    refine mapM_bind_congr fun row' hrow => ?_
    rw [map_bind, Functor.map_map, map_eq_pure_bind]
    simp only [map_pure, List.map_cons, List.splitLengths_cons, List.take_left' hrow, List.drop_left' hrow]

/-- Replaces the comparand of a bound. -/
def Expr.substituteBoundWith : Option (Bound Expr) → StateM σ (Option (Bound Expr))
  | some ⟨e, inclusive⟩ => do return some ⟨← e.substituteWith s again, inclusive⟩
  | none => pure none

/-- In a bound its comparand is substituted. -/
theorem Expr.substituteBoundWith_eq (b : Option (Bound Expr)) :
    Expr.substituteBoundWith s again b =
      (fun es => b.map (·.withComparand es)) <$> (b.map (·.comparand)).toList.mapM (Expr.substituteWith s again) := by
  cases b with
  | none => rfl
  | some b => rfl

/-- In a scan of one index the equality comes first, then the unions and the bounds. -/
theorem Scan.substituteWith_single (head : ScanHead) (index : Catalog.Index) (withUnions : Bool) (ascending : List Bool)
    (ordering equality : List Expr) (unions : List (List Expr)) (low high : Option (Bound Expr)) :
    Scan.substituteWith s again (.single head ⟨index, withUnions, ascending, ordering, equality, unions, low, high⟩) = (do
      let equality ← Expr.substituteAllWith s again equality
      let unions ← Expr.substituteRowsWith s again unions
      let low ← Expr.substituteBoundWith s again low
      let high ← Expr.substituteBoundWith s again high
      pure (.single head ⟨index, withUnions, ascending, ordering, equality, unions, low, high⟩)) := by
  cases low <;> cases high <;> rfl

/-- In an intersection both branches are substituted in turn. -/
theorem Scan.substituteWith_intersect (head : ScanHead) (n : Nat) (output selector : Scan) :
    Scan.substituteWith s again (.intersect head n output selector) = (do
      let output ← output.substituteWith s again
      let selector ← selector.substituteWith s again
      pure (.intersect head n output selector)) := rfl

/-- In a scan the comparands are substituted in turn. -/
theorem Scan.substituteWith_eq (scan : Scan) :
    scan.substituteWith s again = scan.withComparands <$> scan.comparands.mapM (Expr.substituteWith s again) := by
  induction scan using Scan.inductionOn with
  | single head x =>
    obtain ⟨index, withUnions, ascending, ordering, equality, unions, low, high⟩ := x
    rw [Scan.substituteWith_single, Expr.substituteAllWith_eq, Expr.substituteRowsWith_eq, Scan.comparands,
      SingleScan.comparands, List.append_assoc, List.append_assoc, List.mapM_append, map_bind]
    refine mapM_bind_congr fun equality' hequality => ?_
    rw [map_bind, bind_map_left, List.mapM_append, bind_assoc]
    refine mapM_bind_congr fun unions' hunions => ?_
    rw [Expr.substituteBoundWith_eq, Expr.substituteBoundWith_eq]
    simp only [bind_assoc, pure_bind, List.mapM_append, map_eq_pure_bind]
    refine mapM_bind_congr fun low' hlow => ?_
    refine mapM_bind_congr fun high' _ => ?_
    rw [Option.length_toList, Option.isSome_map, ← Option.length_toList] at hlow
    let x : SingleScan Expr := ⟨index, withUnions, ascending, ordering, equality, unions, low, high⟩
    have hsplit : x.withComparands (equality' ++ (unions' ++ (low' ++ high'))) = _ :=
      SingleScan.withComparands_append hequality hunions hlow
    exact congrArg (fun x => pure (single head x)) hsplit.symm
  | intersect head n output selector houtput hselector =>
    rw [Scan.substituteWith_intersect, houtput, hselector, Scan.comparands, List.mapM_append, map_bind, bind_map_left]
    refine mapM_bind_congr fun es hes => ?_
    rw [map_bind, bind_map_left]
    simp only [map_pure, Scan.withComparands_append hes]

/-- In a plan the inputs are substituted before the operands. -/
theorem Plan.substituteWith_eq (p : Plan) :
    p.substituteWith s again = (do
      let inputs ← p.children.mapM (Plan.substituteWith s again)
      let es ← p.exprs.mapM (Expr.substituteWith s again)
      pure (p.refill inputs es)) := by
  have hall := Expr.substituteAllWith_eq s again
  have hrows := Expr.substituteRowsWith_eq s again
  cases p with
  | leaf | tableJoins => rfl
  | probe id op operands => exact congrArg (probe id op <$> ·) (hall operands)
  | values id rows => exact congrArg (values id <$> ·) (hrows rows)
  | unary id op input operands =>
    exact congrArg (fun act => input.substituteWith s again >>= fun input => unary id op input <$> act) (hall operands)
  | binary id op left right operands =>
    exact congrArg (fun act => left.substituteWith s again >>= fun left =>
      right.substituteWith s again >>= fun right => binary id op left right <$> act) (hall operands)
  | aggregate id op phase input =>
    cases phase with
    | bare groupBy =>
      exact congrArg (fun act => input.substituteWith s again >>= fun input =>
        act >>= fun groupBy => pure (aggregate id op (.bare groupBy) input)) (hall groupBy)
    | resolved groupBy aggregates =>
      -- Both lists of operands are substituted in one go on the right, and cut apart by the length of the first.
      have hphase : (do
          let groupBy ← Expr.substituteAllWith s again groupBy
          let aggregates ← Expr.substituteAllWith s again aggregates
          pure (AggregatePhase.resolved groupBy aggregates)) =
          (AggregatePhase.resolved groupBy aggregates).withOperands <$>
            (groupBy ++ aggregates).mapM (Expr.substituteWith s again) := by
        rw [hall, hall, List.mapM_append, map_bind]
        refine mapM_bind_congr fun groupBy' hgroupBy => ?_
        rw [map_bind]
        refine bind_congr fun aggregates' => ?_
        exact congrArg₂ (fun groupBy aggregates => pure (AggregatePhase.resolved groupBy aggregates))
          (List.take_left' hgroupBy).symm (List.drop_left' hgroupBy).symm
      exact congrArg (fun act => input.substituteWith s again >>= fun input =>
        act >>= fun phase => pure (aggregate id op phase input)) hphase
    | split info => rfl
  | joinTree id group nodes conditions scan =>
    cases scan with
    | none => exact congrArg (· >>= fun conditions => pure (joinTree id group nodes conditions none)) (hrows conditions)
    | some scan =>
      exact congrArg (fun act => scan.substituteWith s again >>= fun scan =>
        act >>= fun conditions => pure (joinTree id group nodes conditions (some scan))) (hrows conditions)
  | indexScan scan => exact congrArg (indexScan <$> ·) (scan.substituteWith_eq s again)

/-- In an expression the plan of a subquery is substituted before the operands. -/
theorem Expr.substituteOperandsWith_eq (e : Expr) :
    e.substituteOperandsWith s again = (do
      let ps ← e.ownPlan?.toList.mapM (Plan.substituteWith s again)
      let es ← e.children.mapM (Expr.substituteWith s again)
      pure (e.refill ps es)) := by
  have hall := Expr.substituteAllWith_eq s again
  cases e with
  | constant | parameter | column | cast | comparison | subquery => rfl
  | call f operands => exact congrArg (call f <$> ·) (hall operands)
  | logical op operands => exact congrArg (logical op <$> ·) (hall operands)
  | special f operands => exact congrArg (special f <$> ·) (hall operands)
  | aggregate f operand => cases operand <;> rfl
  | inList operand list =>
    have hcons : (operand :: list).mapM (Expr.substituteWith s again) =
        operand.substituteWith s again >>= fun operand => (operand :: ·) <$> list.mapM (Expr.substituteWith s again) :=
      List.mapM_cons
    calc (inList operand list).substituteOperandsWith s again
      _ = operand.substituteWith s again >>= fun operand => inList operand <$> list.mapM (Expr.substituteWith s again) :=
        congrArg (fun act => operand.substituteWith s again >>= fun operand => inList operand <$> act) (hall list)
      _ = _ := congrArg (· >>= fun es => pure ((inList operand list).refill [] es)) hcons.symm

namespace Subject

/-- What lies below a subject is substituted in turn: the plans before the expressions. -/
theorem withBelow_mapM_below (x : Subject) :
    x.withBelow <$> x.below.mapM (substituteWith s again) = (do
      let ps ← x.lowerPlans.mapM (Plan.substituteWith s again)
      let es ← x.lowerExprs.mapM (Expr.substituteWith s again)
      pure (x.refill ps es)) := by
  have hplans : (x.lowerPlans.map plan).mapM (substituteWith s again) =
      List.map plan <$> x.lowerPlans.mapM (Plan.substituteWith s again) := by
    rw [List.mapM_map]
    exact mapM_map_comp _ _ _
  have hexprs : (x.lowerExprs.map expr).mapM (substituteWith s again) =
      List.map expr <$> x.lowerExprs.mapM (Expr.substituteWith s again) := by
    rw [List.mapM_map]
    exact mapM_map_comp _ _ _
  rw [below_eq, List.mapM_append, hplans, hexprs]
  simp only [map_bind, bind_map_left, map_pure, withBelow_append]

/-- The operands of a subject are replaced one after the other. -/
theorem substituteWith_plan (p : Plan) :
    substituteWith s again (plan p) = (plan p).withBelow <$> (plan p).below.mapM (substituteWith s again) := by
  rw [withBelow_mapM_below, substituteWith, Plan.substituteWith_eq]
  simp only [map_bind, map_pure]
  rfl

/-- Substituting the operands of an expression is substituting all that lies below it. -/
theorem substituteOperandsWith_expr (e : Expr) :
    expr <$> e.substituteOperandsWith s again = (expr e).withBelow <$> (expr e).below.mapM (substituteWith s again) := by
  rw [withBelow_mapM_below, Expr.substituteOperandsWith_eq]
  simp only [map_bind, map_pure]
  rfl

end Subject

end ClusterPlan
