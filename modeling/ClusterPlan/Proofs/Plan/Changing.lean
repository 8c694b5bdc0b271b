import ClusterPlan.Proofs.Plan.Edits
import ClusterPlan.Proofs.Plan.Refilling

/-!
# Changes go down to the first place

A change of a node by its id goes down through what lies below: to the first of the subjects there in which the node is found.
`modifyFirst?` changes the first element of a list that has a change, and each kind of node and expression does this with what
lies below it (`Subject.modify?_plan`, `Subject.modify?_expr`).
-/

namespace ClusterPlan

variable {α β : Type}

/-! ## The first that can be changed -/

/-- Changes the first element that has a change. -/
def modifyFirst? (f : α → Option α) : List α → Option (List α)
  | [] => none
  | x :: xs => ((f x).map (· :: xs)).or ((modifyFirst? f xs).map (x :: ·))

section ModifyFirst

variable {f : α → Option α} {xs ys : List α}

theorem modifyFirst?_cons (f : α → Option α) (x : α) (xs : List α) :
    modifyFirst? f (x :: xs) = ((f x).map (· :: xs)).or ((modifyFirst? f xs).map (x :: ·)) := rfl

/-- What is made of the only element that there is. -/
theorem map_modifyFirst?_singleton (f : α → Option α) (x : α) (g : List α → β) :
    (modifyFirst? f [x]).map g = (f x).map fun y => g [y] :=
  (congrArg (Option.map g) Option.or_none).trans (Option.map_map _ _ _)

/-- If nothing can be changed, there is no change. -/
theorem modifyFirst?_eq_none (h : ∀ x ∈ xs, f x = none) : modifyFirst? f xs = none := by
  induction xs with
  | nil => rfl
  | cons x xs ih =>
    obtain ⟨hx, hxs⟩ := List.forall_mem_cons.1 h
    rw [modifyFirst?_cons, hx, ih hxs]
    rfl

/-- A change is made in the first part, if it can be made there, and else in the second. -/
theorem modifyFirst?_append (f : α → Option α) (xs ys : List α) :
    modifyFirst? f (xs ++ ys) = ((modifyFirst? f xs).map (· ++ ys)).or ((modifyFirst? f ys).map (xs ++ ·)) := by
  induction xs with
  | nil => exact Option.map_id'.symm
  | cons x xs ih =>
    rw [List.cons_append, modifyFirst?_cons, ih, modifyFirst?_cons]
    simp only [Option.map_or, Option.map_map, Option.or_assoc]
    rfl

/-- What is made of a list of which the first element that can be changed is the first of all or one of the others. -/
theorem map_modifyFirst?_cons (f : α → Option α) (x : α) (xs : List α) (g : List α → β) :
    (modifyFirst? f (x :: xs)).map g =
      ((f x).map fun y => g (y :: xs)).or ((modifyFirst? f xs).map fun ys => g (x :: ys)) := by
  rw [modifyFirst?_cons, Option.map_or, Option.map_map, Option.map_map]
  rfl

theorem map_modifyFirst?_append (f : α → Option α) (xs ys : List α) (g : List α → β) :
    (modifyFirst? f (xs ++ ys)).map g =
      ((modifyFirst? f xs).map fun zs => g (zs ++ ys)).or ((modifyFirst? f ys).map fun zs => g (xs ++ zs)) := by
  rw [modifyFirst?_append, Option.map_or, Option.map_map, Option.map_map]
  rfl

/-- The first element that can be changed is changed. -/
theorem modifyFirst?_of_split {x y : α} (hxs : ∀ x ∈ xs, f x = none) (hx : f x = some y) (ys : List α) :
    modifyFirst? f (xs ++ x :: ys) = some (xs ++ y :: ys) := by
  rw [modifyFirst?_append, modifyFirst?_eq_none hxs, modifyFirst?_cons, hx]
  rfl

/-- A change leaves as many elements as there were. -/
theorem length_of_modifyFirst? (h : modifyFirst? f xs = some ys) : ys.length = xs.length := by
  induction xs generalizing ys with
  | nil => cases h
  | cons x xs ih =>
    rcases Option.or_eq_some_iff.1 h with h | ⟨-, h⟩
    · obtain ⟨y, -, rfl⟩ := Option.map_eq_some_iff.1 h
      rfl
    · obtain ⟨zs, hzs, rfl⟩ := Option.map_eq_some_iff.1 h
      exact congrArg (· + 1) (ih hzs)

/-- What is made of changed elements depends only on lists of the same length. -/
theorem map_modifyFirst?_congr {g h : List α → β} (hgh : ∀ ys, ys.length = xs.length → g ys = h ys) :
    (modifyFirst? f xs).map g = (modifyFirst? f xs).map h := by
  cases hxs : modifyFirst? f xs with
  | none => rfl
  | some ys => exact congrArg some (hgh ys (length_of_modifyFirst? hxs))

/-- A change in the image of a list is the image of the change in the list. -/
theorem modifyFirst?_map {f' : β → Option β} (g : α → β) (h : ∀ x, f' (g x) = (f x).map g) (xs : List α) :
    modifyFirst? f' (xs.map g) = (modifyFirst? f xs).map (List.map g) := by
  induction xs with
  | nil => rfl
  | cons x xs ih =>
    rw [List.map_cons, modifyFirst?_cons, modifyFirst?_cons, h, ih]
    simp only [Option.map_or, Option.map_map]
    rfl

end ModifyFirst

/-! ## Each kind of expression and node -/

section Kinds

variable (id : Int) (f : Plan → Plan)

/-- In a list of expressions the first one with the node is changed. -/
theorem Expr.modifyPlanIn?_eq (es : List Expr) : Expr.modifyPlanIn? id f es = modifyFirst? (Expr.modifyPlan? id f) es := by
  induction es with
  | nil => rfl
  | cons e es ih => exact congrArg (fun more => Option.or _ (more.map (e :: ·))) ih

/-- In lists of expressions the first expression with the node is changed, and the lists keep their lengths. -/
theorem Expr.modifyPlanInRows?_eq (rows : List (List Expr)) :
    Expr.modifyPlanInRows? id f rows =
      (modifyFirst? (Expr.modifyPlan? id f) rows.flatten).map (rows.map List.length).splitLengths := by
  induction rows with
  | nil => rfl
  | cons row rows ih =>
    rw [List.flatten_cons, map_modifyFirst?_append]
    refine congrArg₂ Option.or ?_ ?_
    · rw [Expr.modifyPlanIn?_eq]
      refine map_modifyFirst?_congr fun row' hrow => ?_
      rw [List.map_cons, List.splitLengths_cons, List.take_left' hrow, List.drop_left' hrow, splitLengths_flatten]
    · rw [ih, Option.map_map]
      refine map_modifyFirst?_congr fun es _ => ?_
      rw [List.map_cons, List.splitLengths_cons, List.take_left, List.drop_left]
      rfl

/-- In a bound its comparand is changed. -/
theorem Expr.modifyPlanInBound?_eq (b : Option (Bound Expr)) :
    Expr.modifyPlanInBound? id f b =
      (modifyFirst? (Expr.modifyPlan? id f) (b.map (·.comparand)).toList).map fun es => b.map (·.withComparand es) := by
  cases b with
  | none => rfl
  | some b =>
    exact (map_modifyFirst?_singleton (Expr.modifyPlan? id f) b.comparand fun es => some (b.withComparand es)).symm

/-- In a scan the first comparand with the node is changed. -/
theorem Scan.modifyPlan?_eq (s : Scan) :
    s.modifyPlan? id f = (modifyFirst? (Expr.modifyPlan? id f) s.comparands).map s.withComparands := by
  induction s using Scan.inductionOn with
  | single head s =>
    obtain ⟨index, withUnions, ascending, ordering, equality, unions, low, high⟩ := s
    -- other expressions among the four kinds of comparands
    have hrefill {es₁ es₂ es₃ es₄ : List Expr} (h₁ : es₁.length = equality.length) (h₂ : es₂.length = unions.flatten.length)
        (h₃ : es₃.length = low.toList.length) :
        (single head ⟨index, withUnions, ascending, ordering, equality, unions, low, high⟩).withComparands
            (es₁ ++ (es₂ ++ (es₃ ++ es₄))) =
          single head ⟨index, withUnions, ascending, ordering, es₁, (unions.map List.length).splitLengths es₂,
            low.map (·.withComparand es₃), high.map (·.withComparand es₄)⟩ :=
      congrArg (single head) (SingleScan.withComparands_append h₁ h₂ h₃)
    have hlow := length_comparand_toList low
    rw [comparands, SingleScan.comparands, List.append_assoc, List.append_assoc, map_modifyFirst?_append,
      map_modifyFirst?_append, map_modifyFirst?_append]
    refine congrArg₂ Option.or ?_ (congrArg₂ Option.or ?_ (congrArg₂ Option.or ?_ ?_))
    · rw [Expr.modifyPlanIn?_eq]
      refine map_modifyFirst?_congr fun es hes => ?_
      rw [hrefill hes rfl hlow, splitLengths_flatten, map_withComparand_self, map_withComparand_self]
    · rw [Expr.modifyPlanInRows?_eq, Option.map_map]
      refine map_modifyFirst?_congr fun es hes => ?_
      rw [hrefill rfl hes hlow, map_withComparand_self, map_withComparand_self]
      rfl
    · rw [Expr.modifyPlanInBound?_eq, Option.map_map]
      refine map_modifyFirst?_congr fun es hes => ?_
      rw [hrefill rfl rfl (hes.trans hlow), splitLengths_flatten, map_withComparand_self]
      rfl
    · rw [Expr.modifyPlanInBound?_eq, Option.map_map]
      refine map_modifyFirst?_congr fun es hes => ?_
      rw [hrefill rfl rfl hlow, splitLengths_flatten, map_withComparand_self]
      rfl
  | intersect head n output selector houtput hselector =>
    rw [comparands, map_modifyFirst?_append]
    refine congrArg₂ Option.or ?_ ?_
    · rw [houtput, Option.map_map]
      refine map_modifyFirst?_congr fun es hes => ?_
      rw [withComparands_append hes, withComparands_comparands]
      rfl
    · rw [hselector, Option.map_map]
      refine map_modifyFirst?_congr fun es _ => ?_
      rw [withComparands_append rfl, withComparands_comparands]
      rfl

/-- In an expression the plan of a subquery comes before the operands. -/
theorem Expr.modifyPlan?_eq (e : Expr) :
    e.modifyPlan? id f =
      ((modifyFirst? (Plan.modify? id f) e.ownPlan?.toList).map (e.refill · e.children)).or
        ((modifyFirst? (Expr.modifyPlan? id f) e.children).map (e.refill e.ownPlan?.toList)) := by
  cases e with
  | constant | parameter | column => rfl
  | cast operand type =>
    exact (map_modifyFirst?_singleton (modifyPlan? id f) operand fun es => cast (es.getD 0 operand) type).symm
  | call | logical | special => exact congrArg (Option.map _) (modifyPlanIn?_eq id f _)
  | aggregate g operand =>
    cases operand with
    | none => rfl
    | some operand =>
      exact (map_modifyFirst?_singleton (modifyPlan? id f) operand fun es => aggregate g (some (es.getD 0 operand))).symm
  | comparison c left right =>
    have hleft := map_modifyFirst?_cons (modifyPlan? id f) left [right] fun es =>
      comparison c (es.getD 0 left) (es.getD 1 right)
    have hright := map_modifyFirst?_singleton (modifyPlan? id f) right fun es => comparison c left (es.getD 0 right)
    exact (hleft.trans (congrArg (Option.or _) hright)).symm
  | inList operand list =>
    have hoperand := map_modifyFirst?_cons (modifyPlan? id f) operand list fun es => inList (es.getD 0 operand) (es.drop 1)
    have hlist := congrArg (Option.map (inList operand)) (modifyPlanIn?_eq id f list)
    exact (congrArg (Option.or _) hlist).trans hoperand.symm
  | subquery kind plan type =>
    have hplan := map_modifyFirst?_singleton (Plan.modify? id f) plan fun ps => subquery kind (ps.getD 0 plan) type
    exact (Option.or_none.trans hplan).symm

/-- A plan is changed itself, or in the first input with the node, or in the first operand. -/
theorem Plan.modify?_eq_ite (p : Plan) :
    p.modify? id f = if p.id = id then some (f p) else
      ((modifyFirst? (Plan.modify? id f) p.children).map (p.refill · p.exprs)).or
        ((modifyFirst? (Expr.modifyPlan? id f) p.exprs).map (p.refill p.children)) := by
  have hrows (rows : List (List Expr)) (mk : List (List Expr) → Plan) : (Expr.modifyPlanInRows? id f rows).map mk =
      (modifyFirst? (Expr.modifyPlan? id f) rows.flatten).map fun es => mk ((rows.map List.length).splitLengths es) := by
    rw [Expr.modifyPlanInRows?_eq, Option.map_map]
    rfl
  -- In each case both sides search the same places in the same order. They differ in how the changed plan is put together:
  -- with the constructor on the left, and by refilling the node on the right.
  cases p with
  | leaf => rfl
  | probe => exact congrArg (ite _ _) (congrArg (Option.map _) (Expr.modifyPlanIn?_eq id f _))
  | values i rows => exact congrArg (ite _ _) (hrows rows (values i))
  | unary i op input operands =>
    have hinput := map_modifyFirst?_singleton (modify? id f) input fun ps => unary i op (ps.getD 0 input) operands
    have hoperands := congrArg (Option.map (unary i op input)) (Expr.modifyPlanIn?_eq id f operands)
    exact congrArg (ite _ _) (congrArg₂ Option.or hinput.symm hoperands)
  | binary i op left right operands =>
    have hleft := map_modifyFirst?_cons (modify? id f) left [right] fun ps =>
      binary i op (ps.getD 0 left) (ps.getD 1 right) operands
    have hright := map_modifyFirst?_singleton (modify? id f) right fun ps => binary i op left (ps.getD 0 right) operands
    have hoperands := congrArg (Option.map (binary i op left right)) (Expr.modifyPlanIn?_eq id f operands)
    exact congrArg (ite _ _) ((congrArg (Option.or _) (congrArg₂ Option.or hright.symm hoperands)).trans
      (Option.or_assoc.symm.trans (congrArg (Option.or · _) hleft.symm)))
  | aggregate i op phase input =>
    have hinput : (input.modify? id f).map (aggregate i op phase) = (modifyFirst? (modify? id f) [input]).map fun ps =>
        aggregate i op (phase.withOperands phase.operands) (ps.getD 0 input) := by
      rw [map_modifyFirst?_singleton, AggregatePhase.withOperands_operands]
      rfl
    cases phase with
    | bare groupBy =>
      have hoperands := congrArg (Option.map fun es => aggregate i op (.bare es) input) (Expr.modifyPlanIn?_eq id f groupBy)
      exact congrArg (ite _ _) (congrArg₂ Option.or hinput hoperands)
    | resolved groupBy aggregates =>
      -- The operands come in two lists here, and refilling cuts them where the first one ends.
      have hrefill {es₁ es₂ : List Expr} (h : es₁.length = groupBy.length) :
          (aggregate i op (.resolved groupBy aggregates) input).refill [input] (es₁ ++ es₂) =
            aggregate i op (.resolved es₁ es₂) input :=
        congrArg₂ (fun es₁ es₂ => aggregate i op (.resolved es₁ es₂) input) (List.take_left' h) (List.drop_left' h)
      rw [exprs, AggregatePhase.operands, map_modifyFirst?_append]
      refine congrArg (ite _ _) (congrArg₂ Option.or hinput (congrArg₂ Option.or ?_ ?_))
      · rw [Expr.modifyPlanIn?_eq]
        exact map_modifyFirst?_congr fun es hes => (hrefill hes).symm
      · rw [Expr.modifyPlanIn?_eq]
        exact map_modifyFirst?_congr fun es _ => (hrefill rfl).symm
    | split info => exact congrArg (ite _ _) (congrArg (Option.or · none) hinput)
  | tableJoins i group input scans =>
    have hinput := map_modifyFirst?_singleton (modify? id f) input fun ps => tableJoins i group (ps.getD 0 input) scans
    exact congrArg (ite _ _) (Option.or_none.trans hinput).symm
  | joinTree i group nodes conditions scan =>
    cases scan with
    | none => exact congrArg (ite _ _) (hrows conditions (joinTree i group nodes · none))
    | some scan =>
      have hscan : (scan.modify? id f).map (joinTree i group nodes conditions ∘ some) =
          (modifyFirst? (modify? id f) [scan]).map fun ps =>
            joinTree i group nodes ((conditions.map List.length).splitLengths conditions.flatten) (some (ps.getD 0 scan)) := by
        rw [map_modifyFirst?_singleton, splitLengths_flatten]
        rfl
      exact congrArg (ite _ _) (congrArg₂ Option.or hscan (hrows conditions (joinTree i group nodes · (some scan))))
  | indexScan s =>
    refine congrArg (ite _ _) ?_
    rw [Scan.modifyPlan?_eq, Option.map_map]
    rfl

end Kinds

/-! ## Nodes and expressions alike -/

namespace Subject

/-- Changes the first of what lies directly below in which the node is found. -/
def changeBelow? (id : Int) (f : Plan → Plan) (x : Subject) : Option Subject :=
  (modifyFirst? (modify? id f) x.below).map x.withBelow

variable (id : Int) (f : Plan → Plan)

/-- The first change below is one of a plan if there is one, else one of an expression. -/
theorem changeBelow?_eq (x : Subject) :
    x.changeBelow? id f =
      ((modifyFirst? (Plan.modify? id f) x.lowerPlans).map (x.refill · x.lowerExprs)).or
        ((modifyFirst? (Expr.modifyPlan? id f) x.lowerExprs).map (x.refill x.lowerPlans)) := by
  rw [changeBelow?, below_eq, modifyFirst?_append, modifyFirst?_map plan fun _ => rfl, modifyFirst?_map expr fun _ => rfl]
  simp only [Option.map_or, Option.map_map, Function.comp_def, withBelow_append]

/-- A plan that has the id is changed, and else what lies below it. -/
theorem modify?_plan (p : Plan) :
    (plan p).modify? id f = if p.id = id then some (plan (f p)) else (plan p).changeBelow? id f := by
  rw [changeBelow?_eq, modify?, Plan.modify?_eq_ite]
  split
  · rfl
  · simp only [Option.map_or, Option.map_map]
    rfl

/-- An expression has no id, so that what lies below it is changed. -/
theorem modify?_expr (e : Expr) : (expr e).modify? id f = (expr e).changeBelow? id f := by
  rw [changeBelow?_eq, modify?, Expr.modifyPlan?_eq]
  simp only [Option.map_or, Option.map_map]
  rfl

/-- A search finds the first node that has the id. -/
theorem find?_eq (x : Subject) : x.find? id = x.nodes.find? fun q => q.id = id := by
  cases x with
  | plan p => exact p.find?_eq id
  | expr e =>
    rw [eq_flatMap_plans (fun e => nodes_eq (expr e)) (expr e), List.find?_flatMap, find?, Expr.findPlan?_eq, plans]
    exact congrArg (List.findSome? · _) (funext fun p => p.find?_eq id)

/-- The first node below a subject is the first one that is found in one of its parts. -/
theorem find?_below (x : Subject) :
    (x.below.flatMap nodes).find? (fun q => q.id = id) = x.below.findSome? (find? id) := by
  rw [List.find?_flatMap]
  exact congrArg (List.findSome? · _) (funext fun y => (y.find?_eq id).symm)

/-- A plan that has the id is found, and else what is found below it. -/
theorem find?_plan (p : Plan) :
    (plan p).find? id = if p.id = id then some p else (plan p).below.findSome? (find? id) := by
  rw [find?_eq, nodes_eq, List.find?_append, find?_below, plan?, Option.toList_some, List.find?_singleton]
  by_cases hid : p.id = id
  · rw [if_pos (decide_eq_true hid), if_pos hid, Option.some_or]
  · rw [if_neg (by simpa using hid), if_neg hid, Option.none_or]

/-- An expression has no id, so that what lies below it is searched. -/
theorem find?_expr (e : Expr) : (expr e).find? id = (expr e).below.findSome? (find? id) := by
  rw [find?_eq, nodes_eq, List.find?_append, find?_below]
  rfl

end Subject

end ClusterPlan
