import ClusterPlan.Proofs.Plan.Walks

/-!
# What a visitor sees

A visitor can be given a log in which each of its calls is noted with the answer; the log changes neither what it answers nor
what it does to its state. Whatever a visitor answers, and however its answers depend on what it has seen before, the log of a
walk through a plan or an expression keeps the protocol of walks (`records_protocol`).
-/

namespace ClusterPlan

variable {σ : Type}

/-! ## Walks one after the other -/

/-- Walks one after the other, up to the first that answers `false`. -/
def series (walks : List (StateM σ Bool)) : StateM σ Bool := walks.foldr andThen (pure true)

/-- A walk goes on only after a walk that was not stopped. -/
theorem run_andThen (first next : StateM σ Bool) (s : σ) :
    (andThen first next).run s = if (first.run s).1 then next.run (first.run s).2 else (false, (first.run s).2) := by
  have hbind : (andThen first next).run s = (if (first.run s).1 then next else pure false).run (first.run s).2 := rfl
  rw [hbind]
  split <;> rfl

/-- Going on with nothing adds nothing. -/
theorem andThen_pure (walk : StateM σ Bool) : andThen walk (pure true) = walk := by
  refine StateT.ext fun s => ?_
  rw [run_andThen]
  split
  · rename_i h
    exact Prod.ext h.symm rfl
  · rename_i h
    exact Prod.ext (Bool.eq_false_iff.2 h).symm rfl

/-- Of three walks it does not matter which two are put together first. -/
theorem andThen_assoc (a b c : StateM σ Bool) : andThen (andThen a b) c = andThen a (andThen b c) := by
  refine StateT.ext fun s => ?_
  rw [run_andThen, run_andThen, run_andThen, run_andThen]
  split
  · rfl
  · rfl

@[simp]
theorem series_nil : series ([] : List (StateM σ Bool)) = pure true := rfl

@[simp]
theorem series_cons (walk : StateM σ Bool) (walks : List (StateM σ Bool)) :
    series (walk :: walks) = andThen walk (series walks) := rfl

/-- A series of one walk is the walk. -/
theorem series_singleton (walk : StateM σ Bool) : series [walk] = walk := andThen_pure walk

/-- A series is gone through part by part. -/
@[simp]
theorem series_append (walks more : List (StateM σ Bool)) : series (walks ++ more) = andThen (series walks) (series more) := by
  induction walks with
  | nil => rfl
  | cons walk walks ih => rw [List.cons_append, series_cons, series_cons, ih, andThen_assoc]

/-- Walks that all end with `true` have their effects one after the other. -/
theorem run_series {ι : Type} {walk : ι → StateM σ Bool} {effect : σ → ι → σ} {xs : List ι}
    (h : ∀ x ∈ xs, ∀ s, (walk x).run s = (true, effect s x)) (s : σ) :
    (series (xs.map walk)).run s = (true, xs.foldl effect s) := by
  induction xs generalizing s with
  | nil => rfl
  | cons x xs ih =>
    rw [List.map_cons, series_cons, run_andThen, h x List.mem_cons_self, if_pos rfl,
      ih fun y hy => h y (List.mem_cons_of_mem _ hy)]
    rfl

/-! ## Visitors of subjects -/

namespace Visitor

def enterOf (v : Visitor σ) : Subject → StateM σ Bool
  | .plan p => v.enter p
  | .expr e => v.enterExpr e

def leaveOf (v : Visitor σ) : Subject → StateM σ Bool
  | .plan p => v.leave p
  | .expr e => v.leaveExpr e

def visitOf (v : Visitor σ) : Subject → StateM σ Bool
  | .plan p => v.visit p
  | .expr e => v.visitExpr e

/-- Enters a subject, walks what lies below it if it is let in, and leaves it. -/
def aroundOf (v : Visitor σ) (x : Subject) (below : StateM σ Bool) : StateM σ Bool := do
  if ← v.enterOf x then
    let _ ← below
  v.leaveOf x

/-- A way of walking goes by what a visitor says, through what lies below a subject in a given sense. -/
def Leads (v : Visitor σ) (below : Subject → List Subject) (walk : Subject → StateM σ Bool) : Prop :=
  ∀ x : Subject, walk x = if x.isLeaf then v.visitOf x else v.aroundOf x (series ((below x).map walk))

end Visitor

namespace Subject

/-- Walks the nodes of a plan without their operands, or an expression without the plans of subqueries. -/
def accept (v : Visitor σ) : Subject → StateM σ Bool
  | plan p => p.accept v
  | expr e => e.accept v

/-- Walks all that lies below. -/
def acceptDeep (v : Visitor σ) : Subject → StateM σ Bool
  | plan p => p.acceptDeep v
  | expr e => e.acceptDeep v

end Subject

/-- A list of expressions is accepted one by one. -/
theorem Expr.acceptAll_eq (v : Visitor σ) (es : List Expr) :
    Expr.acceptAll v es = series ((es.map Subject.expr).map (Subject.accept v)) := by
  induction es with
  | nil => rfl
  | cons e es ih => exact congrArg (andThen (e.accept v)) ih

/-- A list of expressions is accepted with their subqueries one by one. -/
theorem Expr.acceptDeepAll_eq (v : Visitor σ) (es : List Expr) :
    Expr.acceptDeepAll v es = series ((es.map Subject.expr).map (Subject.acceptDeep v)) := by
  induction es with
  | nil => rfl
  | cons e es ih => exact congrArg (andThen (e.acceptDeep v)) ih

/-- Lists of expressions are accepted with their subqueries one by one. -/
theorem Expr.acceptDeepRows_eq (v : Visitor σ) (rows : List (List Expr)) :
    Expr.acceptDeepRows v rows = series ((rows.flatten.map Subject.expr).map (Subject.acceptDeep v)) := by
  induction rows with
  | nil => rfl
  | cons row rows ih =>
    rw [List.flatten_cons, List.map_append, List.map_append, series_append]
    exact congrArg₂ andThen (Expr.acceptDeepAll_eq v row) ih

/-- The comparands of a scan are accepted with their subqueries one by one. -/
theorem Scan.acceptDeep_eq (v : Visitor σ) (s : Scan) :
    s.acceptDeep v = series ((s.comparands.map Subject.expr).map (Subject.acceptDeep v)) := by
  induction s using Scan.inductionOn with
  | single head s =>
    obtain ⟨_, _, _, _, equality, unions, low, high⟩ := s
    have hbound (bound : Option (Bound Expr)) : bound.elim (pure true) (·.comparand.acceptDeep v) =
        series (((bound.map (·.comparand)).toList.map Subject.expr).map (Subject.acceptDeep v)) := by
      cases bound with
      | none => rfl
      | some bound => exact (series_singleton _).symm
    rw [Scan.comparands, SingleScan.comparands, List.append_assoc, List.append_assoc]
    simp only [List.map_append, series_append]
    rw [← hbound, ← hbound, ← Expr.acceptDeepRows_eq, ← Expr.acceptDeepAll_eq]
    cases low <;> cases high <;> rfl
  | intersect _ _ output selector houtput hselector =>
    rw [Scan.comparands, List.map_append, List.map_append, series_append]
    exact congrArg₂ andThen houtput hselector

/-- A walk without subqueries goes around a subject and to its inputs. -/
theorem leads_accept (v : Visitor σ) : v.Leads Subject.inputs (Subject.accept v) := by
  rintro (p | e)
  · cases p with
    | leaf => rfl
    | probe => rfl
    | values => rfl
    | indexScan => rfl
    | unary | aggregate | tableJoins => exact congrArg (v.around _) (series_singleton _).symm
    | binary => exact congrArg (fun m => v.around _ (andThen _ m)) (series_singleton _).symm
    | joinTree id g nodes conditions scan =>
      cases scan with
      | none => rfl
      | some scan => exact congrArg (v.around _) (series_singleton _).symm
  · cases e with
    | constant | parameter | column | subquery => rfl
    | cast => exact congrArg (v.aroundExpr _) (series_singleton _).symm
    | call | logical | special => exact congrArg (v.aroundExpr _) (Expr.acceptAll_eq v _)
    | comparison => exact congrArg (fun m => v.aroundExpr _ (andThen _ m)) (series_singleton _).symm
    | inList => exact congrArg (fun m => v.aroundExpr _ (andThen _ m)) (Expr.acceptAll_eq v _)
    | aggregate f operand =>
      cases operand with
      | none => rfl
      | some operand => exact congrArg (v.aroundExpr _) (series_singleton _).symm

/-- A walk with subqueries goes around a subject and to all that lies below it. -/
theorem leads_acceptDeep (v : Visitor σ) : v.Leads Subject.below (Subject.acceptDeep v) := by
  rintro (p | e)
  · cases p with
    | leaf => rfl
    | probe => exact congrArg (v.around _) (Expr.acceptDeepAll_eq v _)
    | values => exact congrArg (v.around _) (Expr.acceptDeepRows_eq v _)
    | unary => exact congrArg (fun m => v.around _ (andThen _ m)) (Expr.acceptDeepAll_eq v _)
    | binary => exact congrArg (fun m => v.around _ (andThen _ (andThen _ m))) (Expr.acceptDeepAll_eq v _)
    | aggregate id op phase input =>
      cases phase with
      | bare groupBy => exact congrArg (fun m => v.around _ (andThen _ m)) (Expr.acceptDeepAll_eq v _)
      | resolved groupBy aggregates =>
        have hoperands : andThen (Expr.acceptDeepAll v groupBy) (Expr.acceptDeepAll v aggregates) =
            series (((groupBy ++ aggregates).map Subject.expr).map (Subject.acceptDeep v)) := by
          simp only [Expr.acceptDeepAll_eq, List.map_append, series_append]
        exact congrArg (fun m => v.around _ (andThen _ m)) hoperands
      | split => rfl
    | tableJoins => exact congrArg (v.around _) (series_singleton _).symm
    | joinTree id g nodes conditions scan =>
      cases scan with
      | none => exact congrArg (v.around _) (Expr.acceptDeepRows_eq v _)
      | some scan => exact congrArg (fun m => v.around _ (andThen _ m)) (Expr.acceptDeepRows_eq v _)
    | indexScan s => exact congrArg (v.around _) (s.acceptDeep_eq v)
  · cases e with
    | constant | parameter | column => rfl
    | cast | subquery => exact congrArg (v.aroundExpr _) (series_singleton _).symm
    | call | logical | special => exact congrArg (v.aroundExpr _) (Expr.acceptDeepAll_eq v _)
    | comparison => exact congrArg (fun m => v.aroundExpr _ (andThen _ m)) (series_singleton _).symm
    | inList => exact congrArg (fun m => v.aroundExpr _ (andThen _ m)) (Expr.acceptDeepAll_eq v _)
    | aggregate f operand =>
      cases operand with
      | none => rfl
      | some operand => exact congrArg (v.aroundExpr _) (series_singleton _).symm

/-! ## Logs -/

/-- Makes a call and notes it with the answer behind what was noted before. -/
def noting (event : Bool → WalkEvent) (call : StateM σ Bool) : StateM (σ × List WalkEvent) Bool := do
  let (s, log) ← get
  let (answer, s) := call.run s
  set (s, log ++ [event answer])
  return answer

namespace Visitor

/-- The visitor that notes all of its calls. -/
def logged (v : Visitor σ) : Visitor (σ × List WalkEvent) where
  enter p := noting (.enter (.plan p)) (v.enter p)
  leave p := noting (.leave (.plan p)) (v.leave p)
  visit p := noting (.visit (.plan p)) (v.visit p)
  enterExpr e := noting (.enter (.expr e)) (v.enterExpr e)
  leaveExpr e := noting (.leave (.expr e)) (v.leaveExpr e)
  visitExpr e := noting (.visit (.expr e)) (v.visitExpr e)

/-- In some state the visitor gives the answer that was noted. -/
def Gives (v : Visitor σ) : WalkEvent → Prop
  | .enter x b => ∃ s, ((v.enterOf x).run s).1 = b
  | .leave x b => ∃ s, ((v.leaveOf x).run s).1 = b
  | .visit x b => ∃ s, ((v.visitOf x).run s).1 = b

/-- Walking with a log is walking and noting some events. They are calls that the visitor answered, and are as told of the
answer of the walk. -/
def Records (v : Visitor σ) (walk : StateM σ Bool) (logged : StateM (σ × List WalkEvent) Bool)
    (told : List WalkEvent → Bool → Prop) : Prop :=
  ∀ s log, ∃ events, logged.run (s, log) = ((walk.run s).1, ((walk.run s).2, log ++ events)) ∧
    (∀ e ∈ events, v.Gives e) ∧ told events (walk.run s).1

variable {v : Visitor σ} {walk next : StateM σ Bool} {logged loggedNext : StateM (σ × List WalkEvent) Bool}
  {told : List WalkEvent → Bool → Prop} {below : Subject → List Subject} {x : Subject}

/-- A call that is noted answers as before, and its event is the last of the log. -/
theorem run_noting (event : Bool → WalkEvent) (call : StateM σ Bool) (s : σ) (log : List WalkEvent) :
    (noting event call).run (s, log) = ((call.run s).1, ((call.run s).2, log ++ [event (call.run s).1])) := rfl

/-- Entering is noted with its answer. -/
theorem enterOf_logged (v : Visitor σ) (x : Subject) : v.logged.enterOf x = noting (.enter x) (v.enterOf x) := by
  cases x <;> rfl

theorem leaveOf_logged (v : Visitor σ) (x : Subject) : v.logged.leaveOf x = noting (.leave x) (v.leaveOf x) := by
  cases x <;> rfl

theorem visitOf_logged (v : Visitor σ) (x : Subject) : v.logged.visitOf x = noting (.visit x) (v.visitOf x) := by
  cases x <;> rfl

/-- The walk inside is left out if entering says so; leaving answers in both cases. -/
theorem run_aroundOf (v : Visitor σ) (x : Subject) (walk : StateM σ Bool) (s : σ) :
    (v.aroundOf x walk).run s = if ((v.enterOf x).run s).1 then
        (v.leaveOf x).run (walk.run ((v.enterOf x).run s).2).2
      else (v.leaveOf x).run ((v.enterOf x).run s).2 := by
  have hbind : (v.aroundOf x walk).run s =
      (if ((v.enterOf x).run s).1 then walk >>= fun _ => v.leaveOf x else v.leaveOf x).run ((v.enterOf x).run s).2 := rfl
  rw [hbind]
  split <;> rfl

/-- What is recorded satisfies every weaker description. -/
theorem Records.mono {more : List WalkEvent → Bool → Prop} (h : v.Records walk logged told)
    (hmore : ∀ events b, told events b → more events b) : v.Records walk logged more := by
  intro s log
  obtain ⟨events, hrun, hgives, htold⟩ := h s log
  exact ⟨events, hrun, hgives, hmore _ _ htold⟩

/-- The visit of a leaf records a walk. -/
theorem records_visitOf (hx : x.isLeaf) : v.Records (v.visitOf x) (v.logged.visitOf x) (Walk below x) := by
  intro s log
  rw [visitOf_logged, run_noting]
  exact ⟨_, rfl, List.forall_mem_singleton.2 ⟨s, rfl⟩, .visited hx⟩

/-- Entering and leaving around recorded walks records a walk. -/
theorem Records.aroundOf (hx : ¬x.isLeaf) (h : v.Records walk logged (Walks below (below x))) :
    v.Records (v.aroundOf x walk) (v.logged.aroundOf x logged) (Walk below x) := by
  intro s log
  rw [run_aroundOf, run_aroundOf, enterOf_logged, leaveOf_logged, run_noting]
  cases hentered : ((v.enterOf x).run s).1 with
  | false =>
    refine ⟨[.enter x false, .leave x _], ?_, ?_, .refused hx⟩
    · rw [if_neg Bool.false_ne_true, if_neg Bool.false_ne_true, run_noting, List.append_assoc]
      rfl
    · exact List.forall_mem_cons.2 ⟨⟨s, hentered⟩, List.forall_mem_singleton.2 ⟨_, rfl⟩⟩
  | true =>
    obtain ⟨events, hrun, hgives, hwalks⟩ := h ((v.enterOf x).run s).2 (log ++ [.enter x true])
    refine ⟨.enter x true :: (events ++ [.leave x _]), ?_, ?_, .entered hx hwalks⟩
    · rw [if_pos rfl, if_pos rfl, hrun, run_noting]
      simp only [List.append_assoc, List.cons_append, List.nil_append]
    · exact List.forall_mem_cons.2 ⟨⟨s, hentered⟩, List.forall_mem_append.2 ⟨hgives, List.forall_mem_singleton.2 ⟨_, rfl⟩⟩⟩

/-- A series of recorded walks records the walks one after the other. -/
theorem records_series {walkOf : Subject → StateM σ Bool} {loggedOf : Subject → StateM (σ × List WalkEvent) Bool}
    {xs : List Subject} (h : ∀ x ∈ xs, v.Records (walkOf x) (loggedOf x) (Walk below x)) :
    v.Records (series (xs.map walkOf)) (series (xs.map loggedOf)) (Walks below xs) := by
  induction xs with
  | nil => exact fun s log => ⟨[], by rw [List.append_nil]; rfl, fun _ he => absurd he List.not_mem_nil, .nil⟩
  | cons x xs ih =>
    intro s log
    rw [List.map_cons, List.map_cons, series_cons, series_cons, run_andThen, run_andThen]
    obtain ⟨events, hrun, hgives, hwalk⟩ := h x List.mem_cons_self s log
    rw [hrun]
    cases hgo : ((walkOf x).run s).1 with
    | false =>
      rw [hgo] at hwalk
      exact ⟨events, rfl, hgives, .stopped hwalk⟩
    | true =>
      rw [hgo] at hwalk
      obtain ⟨more, hrunMore, hgivesMore, hwalks⟩ :=
        ih (fun y hy => h y (List.mem_cons_of_mem _ hy)) ((walkOf x).run s).2 (log ++ events)
      refine ⟨events ++ more, ?_, List.forall_mem_append.2 ⟨hgives, hgivesMore⟩, .cons hwalk hwalks⟩
      rw [if_pos rfl, if_pos rfl, hrunMore, List.append_assoc]

/-- A visitor that is led as described records a walk for every subject. -/
theorem Leads.records {walkOf : Subject → StateM σ Bool} {loggedOf : Subject → StateM (σ × List WalkEvent) Bool}
    (h : v.Leads below walkOf) (hlogged : v.logged.Leads below loggedOf) (hbelow : ∀ x, below x ⊆ x.below) (x : Subject) :
    v.Records (walkOf x) (loggedOf x) (Walk below x) := by
  induction x using Subject.inductionOn with
  | h x ih =>
    rw [h x, hlogged x]
    split
    · rename_i hx
      exact records_visitOf hx
    · rename_i hx
      exact Records.aroundOf hx (records_series fun y hy => ih y (hbelow x hy))

/-- A walk through the nodes of a plan, or through an expression without subqueries. -/
theorem records_accept (v : Visitor σ) (x : Subject) : v.Records (x.accept v) (x.accept v.logged) (Walk Subject.inputs x) :=
  (leads_accept v).records (leads_accept v.logged) Subject.inputs_subset_below x

/-- A walk through all that lies below. -/
theorem records_acceptDeep (v : Visitor σ) (x : Subject) :
    v.Records (x.acceptDeep v) (x.acceptDeep v.logged) (Walk Subject.below x) :=
  (leads_acceptDeep v).records (leads_acceptDeep v.logged) (fun x => List.Subset.refl x.below) x

end Visitor

/-- Whatever a visitor answers, the log of a walk keeps the protocol: through the nodes of a plan, through an expression
without subqueries, and through all that lies below a plan or an expression. -/
theorem records_protocol (v : Visitor σ) :
    (∀ p : Plan, v.Records (p.accept v) (p.accept v.logged) (Protocol Subject.inputs (.plan p))) ∧
    (∀ p : Plan, v.Records (p.acceptDeep v) (p.acceptDeep v.logged) (Protocol Subject.below (.plan p))) ∧
    (∀ e : Expr, v.Records (e.accept v) (e.accept v.logged) (Protocol Subject.inputs (.expr e))) ∧
    ∀ e : Expr, v.Records (e.acceptDeep v) (e.acceptDeep v.logged) (Protocol Subject.below (.expr e)) := by
  have hinputs (x : Subject) : v.Records (x.accept v) (x.accept v.logged) (Protocol Subject.inputs x) :=
    (v.records_accept x).mono fun _ _ h => h.protocol
  have hbelow (x : Subject) : v.Records (x.acceptDeep v) (x.acceptDeep v.logged) (Protocol Subject.below x) :=
    (v.records_acceptDeep x).mono fun _ _ h => h.protocol
  exact ⟨fun p => hinputs (.plan p), fun p => hbelow (.plan p), fun e => hinputs (.expr e), fun e => hbelow (.expr e)⟩

end ClusterPlan
