import ClusterPlan.Plan.Traversal

/-!
# What lies below

Plans and expressions are one tree, whose subjects are plan nodes and expressions. `Subject.below` lists what lies directly
below a subject; what holds of a subject if it holds of all that lies below it holds of every subject
(`Subject.inductionOn`), and `Subject.fold` computes a value for a subject from the values of what lies below it
(`Subject.fold_eq`).
-/

namespace ClusterPlan

/-- What a walk tells of: a plan node or an expression. -/
inductive Subject where
  | plan (p : Plan)
  | expr (e : Expr)

namespace Subject

def isLeaf : Subject → Bool
  | plan p => p.isLeaf
  | expr e => e.isLeaf

/-- The inputs of a node or the operands of an expression. -/
def inputs : Subject → List Subject
  | plan p => p.children.map plan
  | expr e => e.children.map expr

/-- All that lies directly below: the inputs of a node and then its operands, the plan of a subquery, the operands of any other
expression. -/
def below : Subject → List Subject
  | plan p => p.children.map plan ++ p.exprs.map expr
  | expr (.subquery _ p _) => [plan p]
  | expr e => e.children.map expr

/-- Nothing lies below a leaf. -/
theorem below_of_isLeaf {x : Subject} (h : x.isLeaf) : x.below = [] := by
  rcases x with p | e
  · cases p <;> first | rfl | cases h
  · cases e <;> first | rfl | cases h

/-- The inputs of a subject lie below it. -/
theorem inputs_subset_below (x : Subject) : x.inputs ⊆ x.below := by
  rcases x with p | e
  · exact List.subset_append_left _ _
  · cases e with
    | subquery kind p type => exact List.nil_subset _
    | _ => exact List.Subset.refl _

end Subject

/-! ## Induction -/

/-- A property that passes from all that lies below a subject to the subject. -/
def Subject.Inherited (P : Subject → Prop) : Prop := ∀ x : Subject, (∀ y ∈ x.below, P y) → P x

section Induction

variable {P : Subject → Prop}

mutual

/-- What subjects inherit from all that lies below them holds of every expression. -/
theorem Expr.induct_below (h : Subject.Inherited P) : ∀ e : Expr, P (.expr e)
  | .constant _ _ | .parameter _ _ | .column _ | .aggregate _ none => h _ fun _ hy => absurd hy List.not_mem_nil
  | .cast e _ | .aggregate _ (some e) => h _ (List.forall_mem_singleton.2 (e.induct_below h))
  | .call _ es | .logical _ es | .special _ es => h _ (List.forall_mem_map.2 (Expr.induct_belowAll h es))
  | .comparison _ l r => h _ (List.forall_mem_cons.2 ⟨l.induct_below h, List.forall_mem_singleton.2 (r.induct_below h)⟩)
  | .inList e es => h _ (List.forall_mem_cons.2 ⟨e.induct_below h, List.forall_mem_map.2 (Expr.induct_belowAll h es)⟩)
  | .subquery _ p _ => h _ (List.forall_mem_singleton.2 (p.induct_below h))

theorem Expr.induct_belowAll (h : Subject.Inherited P) : ∀ es : List Expr, ∀ e ∈ es, P (.expr e)
  | [] => fun _ he => absurd he List.not_mem_nil
  | e :: es => List.forall_mem_cons.2 ⟨e.induct_below h, Expr.induct_belowAll h es⟩

theorem Expr.induct_belowRows (h : Subject.Inherited P) : ∀ rows : List (List Expr), ∀ e ∈ rows.flatten, P (.expr e)
  | [] => fun _ he => absurd he List.not_mem_nil
  | row :: rows => List.forall_mem_append.2 ⟨Expr.induct_belowAll h row, Expr.induct_belowRows h rows⟩

theorem Expr.induct_belowBound (h : Subject.Inherited P) :
    ∀ b : Option (Bound Expr), ∀ e ∈ (b.map (·.comparand)).toList, P (.expr e)
  | none => fun _ he => absurd he List.not_mem_nil
  | some ⟨e, _⟩ => List.forall_mem_singleton.2 (e.induct_below h)

theorem Expr.induct_belowPhase (h : Subject.Inherited P) :
    ∀ phase : AggregatePhase Expr, ∀ e ∈ phase.operands, P (.expr e)
  | .bare groupBy => Expr.induct_belowAll h groupBy
  | .resolved groupBy aggregates =>
    List.forall_mem_append.2 ⟨Expr.induct_belowAll h groupBy, Expr.induct_belowAll h aggregates⟩
  | .split _ => fun _ he => absurd he List.not_mem_nil

theorem Scan.induct_below (h : Subject.Inherited P) : ∀ s : Scan, ∀ e ∈ s.comparands, P (.expr e)
  | .single _ ⟨_, _, _, _, equality, unions, low, high⟩ =>
    List.forall_mem_append.2 ⟨List.forall_mem_append.2 ⟨List.forall_mem_append.2 ⟨Expr.induct_belowAll h equality,
      Expr.induct_belowRows h unions⟩, Expr.induct_belowBound h low⟩, Expr.induct_belowBound h high⟩
  | .intersect _ _ output selector => List.forall_mem_append.2 ⟨output.induct_below h, selector.induct_below h⟩

theorem Plan.induct_below (h : Subject.Inherited P) : ∀ p : Plan, P (.plan p)
  | .leaf _ _ => h _ fun _ hy => absurd hy List.not_mem_nil
  | .probe _ _ es => h _ (List.forall_mem_map.2 (Expr.induct_belowAll h es))
  | .values _ rows => h _ (List.forall_mem_map.2 (Expr.induct_belowRows h rows))
  | .unary _ _ input es =>
    h _ (List.forall_mem_cons.2 ⟨input.induct_below h, List.forall_mem_map.2 (Expr.induct_belowAll h es)⟩)
  | .binary _ _ left right es =>
    h _ (List.forall_mem_cons.2 ⟨left.induct_below h, List.forall_mem_cons.2 ⟨right.induct_below h,
      List.forall_mem_map.2 (Expr.induct_belowAll h es)⟩⟩)
  | .aggregate _ _ phase input =>
    h _ (List.forall_mem_cons.2 ⟨input.induct_below h, List.forall_mem_map.2 (Expr.induct_belowPhase h phase)⟩)
  | .tableJoins _ _ input _ => h _ (List.forall_mem_singleton.2 (input.induct_below h))
  | .joinTree _ _ _ conditions none => h _ (List.forall_mem_map.2 (Expr.induct_belowRows h conditions))
  | .joinTree _ _ _ conditions (some scan) =>
    h _ (List.forall_mem_cons.2 ⟨scan.induct_below h, List.forall_mem_map.2 (Expr.induct_belowRows h conditions)⟩)
  | .indexScan s => h _ (List.forall_mem_map.2 (s.induct_below h))

end

end Induction

/-- What passes from all that lies below a subject to the subject holds of every subject. -/
@[elab_as_elim]
theorem Subject.inductionOn {P : Subject → Prop} (x : Subject) (h : ∀ x : Subject, (∀ y ∈ x.below, P y) → P x) :
    P x := by
  cases x with
  | plan p => exact p.induct_below h
  | expr e => exact e.induct_below h

/-- What passes from the operands of an expression to the expression holds of every expression. -/
theorem Expr.inductionOn {P : Expr → Prop} (e : Expr) (h : ∀ e : Expr, (∀ operand ∈ e.children, P operand) → P e) :
    P e := by
  have hsubject : ∀ (x : Subject) (e : Expr), x = .expr e → P e := by
    intro x
    induction x using Subject.inductionOn with
    | h x ih =>
      rintro e rfl
      refine h e fun operand hoperand => ih (.expr operand) ?_ operand rfl
      exact Subject.inputs_subset_below (.expr e) (List.mem_map_of_mem hoperand)
  exact hsubject (.expr e) e rfl

/-- What holds of single scans, and of an intersection if it holds of its branches, holds of every scan. -/
theorem Scan.inductionOn {P : Scan → Prop} (single : ∀ head s, P (.single head s))
    (intersect : ∀ head n output selector, P output → P selector → P (.intersect head n output selector)) (s : Scan) : P s := by
  cases s with
  | single head s => exact single head s
  | intersect head n output selector =>
    exact intersect head n output selector (output.inductionOn single intersect) (selector.inductionOn single intersect)

/-! ## Folds -/

section Fold

variable {β : Type} (f : Subject → List β → β)

mutual

/-- The value of an expression, given the values of what lies below it. -/
def Expr.fold : Expr → β
  | .constant value type => f (.expr (.constant value type)) []
  | .parameter position type => f (.expr (.parameter position type)) []
  | .column c => f (.expr (.column c)) []
  | .cast operand type => f (.expr (.cast operand type)) [operand.fold]
  | .call g operands => f (.expr (.call g operands)) (Expr.foldAll operands)
  | .aggregate g none => f (.expr (.aggregate g none)) []
  | .aggregate g (some operand) => f (.expr (.aggregate g (some operand))) [operand.fold]
  | .comparison c left right => f (.expr (.comparison c left right)) [left.fold, right.fold]
  | .logical op operands => f (.expr (.logical op operands)) (Expr.foldAll operands)
  | .inList operand list => f (.expr (.inList operand list)) (operand.fold :: Expr.foldAll list)
  | .subquery kind plan type => f (.expr (.subquery kind plan type)) [plan.fold]
  | .special g operands => f (.expr (.special g operands)) (Expr.foldAll operands)

def Expr.foldAll : List Expr → List β
  | [] => []
  | e :: es => e.fold :: Expr.foldAll es

def Expr.foldRows : List (List Expr) → List β
  | [] => []
  | row :: rows => Expr.foldAll row ++ Expr.foldRows rows

def Expr.foldBound : Option (Bound Expr) → List β
  | none => []
  | some ⟨e, _⟩ => [e.fold]

def Expr.foldPhase : AggregatePhase Expr → List β
  | .bare groupBy => Expr.foldAll groupBy
  | .resolved groupBy aggregates => Expr.foldAll groupBy ++ Expr.foldAll aggregates
  | .split _ => []

def Scan.foldComparands : Scan → List β
  | .single _ ⟨_, _, _, _, equality, unions, low, high⟩ =>
    Expr.foldAll equality ++ Expr.foldRows unions ++ Expr.foldBound low ++ Expr.foldBound high
  | .intersect _ _ output selector => output.foldComparands ++ selector.foldComparands

/-- The value of a plan, given the values of what lies below it. -/
def Plan.fold : Plan → β
  | .leaf id op => f (.plan (.leaf id op)) []
  | .probe id op operands => f (.plan (.probe id op operands)) (Expr.foldAll operands)
  | .values id rows => f (.plan (.values id rows)) (Expr.foldRows rows)
  | .unary id op input operands => f (.plan (.unary id op input operands)) (input.fold :: Expr.foldAll operands)
  | .binary id op left right operands =>
    f (.plan (.binary id op left right operands)) (left.fold :: right.fold :: Expr.foldAll operands)
  | .aggregate id op phase input => f (.plan (.aggregate id op phase input)) (input.fold :: Expr.foldPhase phase)
  | .tableJoins id g input scans => f (.plan (.tableJoins id g input scans)) [input.fold]
  | .joinTree id g nodes conditions none => f (.plan (.joinTree id g nodes conditions none)) (Expr.foldRows conditions)
  | .joinTree id g nodes conditions (some scan) =>
    f (.plan (.joinTree id g nodes conditions (some scan))) (scan.fold :: Expr.foldRows conditions)
  | .indexScan s => f (.plan (.indexScan s)) s.foldComparands

end

def Subject.fold : Subject → β
  | plan p => p.fold f
  | expr e => e.fold f

/-- Folding a list of expressions is folding each. -/
theorem Expr.foldAll_eq (es : List Expr) : Expr.foldAll f es = (es.map Subject.expr).map (Subject.fold f) := by
  induction es with
  | nil => rfl
  | cons e es ih =>
    rw [Expr.foldAll, ih]
    rfl

theorem Expr.foldRows_eq (rows : List (List Expr)) :
    Expr.foldRows f rows = (rows.flatten.map Subject.expr).map (Subject.fold f) := by
  induction rows with
  | nil => rfl
  | cons row rows ih => rw [Expr.foldRows, ih, Expr.foldAll_eq, List.flatten_cons, List.map_append, List.map_append]

theorem Expr.foldBound_eq (b : Option (Bound Expr)) :
    Expr.foldBound f b = ((b.map (·.comparand)).toList.map Subject.expr).map (Subject.fold f) := by
  cases b <;> rfl

theorem Expr.foldPhase_eq (phase : AggregatePhase Expr) :
    Expr.foldPhase f phase = (phase.operands.map Subject.expr).map (Subject.fold f) := by
  cases phase with
  | bare groupBy => exact Expr.foldAll_eq f groupBy
  | resolved groupBy aggregates =>
    rw [Expr.foldPhase, Expr.foldAll_eq, Expr.foldAll_eq, AggregatePhase.operands, List.map_append, List.map_append]
  | split info => rfl

/-- Folding a scan is folding its comparands. -/
theorem Scan.foldComparands_eq : ∀ s : Scan, s.foldComparands f = (s.comparands.map Subject.expr).map (Subject.fold f)
  | .single _ ⟨_, _, _, _, equality, unions, low, high⟩ => by
    simp only [Scan.foldComparands, Scan.comparands, SingleScan.comparands, Expr.foldAll_eq, Expr.foldRows_eq,
      Expr.foldBound_eq, List.map_append]
  | .intersect _ _ output selector => by
    rw [Scan.foldComparands, Scan.comparands, output.foldComparands_eq, selector.foldComparands_eq, List.map_append,
      List.map_append]

/-- The value of a subject comes from the values of what lies directly below it. -/
theorem Subject.fold_eq (x : Subject) : x.fold f = f x (x.below.map (Subject.fold f)) := by
  rcases x with p | e
  · cases p with
    | leaf | tableJoins => rfl
    | probe => exact congrArg (f _) (Expr.foldAll_eq f _)
    | values => exact congrArg (f _) (Expr.foldRows_eq f _)
    | unary => exact congrArg (fun ys => f _ (_ :: ys)) (Expr.foldAll_eq f _)
    | binary => exact congrArg (fun ys => f _ (_ :: _ :: ys)) (Expr.foldAll_eq f _)
    | aggregate => exact congrArg (fun ys => f _ (_ :: ys)) (Expr.foldPhase_eq f _)
    | joinTree id g nodes conditions scan =>
      cases scan with
      | none => exact congrArg (f _) (Expr.foldRows_eq f _)
      | some scan => exact congrArg (fun ys => f _ (_ :: ys)) (Expr.foldRows_eq f _)
    | indexScan s => exact congrArg (f _) (s.foldComparands_eq f)
  · cases e with
    | constant | parameter | column | cast | comparison | subquery => rfl
    | call | logical | special => exact congrArg (f _) (Expr.foldAll_eq f _)
    | inList => exact congrArg (fun ys => f _ (_ :: ys)) (Expr.foldAll_eq f _)
    | aggregate g operand => cases operand <;> rfl

end Fold

end ClusterPlan
