import ClusterPlan.Proofs.Plan.Substituting

/-!
# Replacing from below

A substitution that asks for the operands first is a fold: what lies below a subject is replaced one after the other and put
back, and only then the subject itself is replaced, if it is an expression (`BottomUp`). Each answer stands where the expression
was and is given to no call again, except as a part of what stands above it, so there are as many calls as expressions
(`Substitution.exists_course`).
-/

namespace ClusterPlan

variable {σ α β : Type}

/-- A call of a substitution: the expression whose place it is about, what it is given and what it answers. -/
structure Replacement where
  original : Expr
  given : Expr
  answer : Expr

mutual

/-- The calls that replace the expressions of a subject from below and what they put in its place, from one state to another:
first all that lies below is replaced; a plan then has what came of it below, and an expression with what came of it below is
given away and the answer takes its place. -/
inductive BottomUp (replace : Expr → StateM σ Expr) : Subject → List Replacement → Subject → σ → σ → Prop where
  | plan {p : Plan} {calls : List Replacement} {ys : List Subject} {st st' : σ} :
      BottomUpAll replace (Subject.plan p).below calls ys st st' →
      BottomUp replace (.plan p) calls ((Subject.plan p).withBelow ys) st st'
  | expr {e given answer : Expr} {calls : List Replacement} {ys : List Subject} {st st' st'' : σ} :
      BottomUpAll replace (Subject.expr e).below calls ys st st' →
      (Subject.expr e).withBelow ys = .expr given → (replace given).run st' = (answer, st'') →
      BottomUp replace (.expr e) (calls ++ [⟨e, given, answer⟩]) (.expr answer) st st''

/-- The calls for some subjects one after the other. -/
inductive BottomUpAll (replace : Expr → StateM σ Expr) : List Subject → List Replacement → List Subject → σ → σ → Prop where
  | nil {st : σ} : BottomUpAll replace [] [] [] st st
  | cons {x y : Subject} {xs ys : List Subject} {calls more : List Replacement} {st st' st'' : σ} :
      BottomUp replace x calls y st st' → BottomUpAll replace xs more ys st' st'' →
      BottomUpAll replace (x :: xs) (calls ++ more) (y :: ys) st st''

end

namespace Substitution

/-! ## Substitutions that ask for the operands first -/

/-- What takes the place of a subject with all that lies below it replaced. -/
def settle (s : Substitution σ) : Subject → StateM σ Subject
  | .plan p => pure (.plan p)
  | .expr e => .expr <$> s.replace e

/-- If operands always come first, what lies below is replaced and then what has become of the subject. -/
theorem substituteWith_of_operandsFirst {s : Substitution σ} (hs : ∀ st e, s.operandsFirst st e = true)
    (again : Expr → StateM σ Expr) (x : Subject) :
    x.substituteWith s again = x.below.mapM (Subject.substituteWith s again) >>= fun ys => s.settle (x.withBelow ys) := by
  cases x with
  | plan p =>
    rw [Subject.substituteWith_plan, map_eq_pure_bind]
    rfl
  | expr e =>
    have hoperands : (Subject.expr e).below.mapM (Subject.substituteWith s again) >>=
        (fun ys => s.settle ((Subject.expr e).withBelow ys)) =
        (.expr <$> e.substituteOperandsWith s again) >>= s.settle := by
      rw [Subject.substituteOperandsWith_expr, bind_map_left]
    rw [hoperands, Subject.substituteWith, substituteWith_eq, around_eq fun st => hs st e, if_pos rfl, map_bind,
      bind_map_left]
    rfl

/-- An action ends with a result and a state, with a log as well as without, and what is noted are the expressions that some
calls are given. -/
def Performs (calls : List Replacement) (a : α) (st st' : σ) (action : StateM σ α) (logged : StateM (σ × List Expr) α) : Prop :=
  action.run st = (a, st') ∧ ∀ log, logged.run (st, log) = (a, (st', log ++ calls.map (·.given)))

section Performs

variable {calls more : List Replacement} {a : α} {b : β} {st st' st'' : σ} {action : StateM σ α}
  {logged : StateM (σ × List Expr) α}

/-- A value that is ready is found without a call. -/
theorem performs_pure (a : α) (st : σ) : Performs [] a st st (pure a) (pure a) :=
  ⟨rfl, fun log => by rw [List.map_nil, List.append_nil]; rfl⟩

/-- Actions one after the other perform their calls one after the other. -/
theorem Performs.bind {next : α → StateM σ β} {nextLogged : α → StateM (σ × List Expr) β}
    (h : Performs calls a st st' action logged) (hnext : Performs more b st' st'' (next a) (nextLogged a)) :
    Performs (calls ++ more) b st st'' (action >>= next) (logged >>= nextLogged) := by
  constructor
  · have hbind : (action >>= next).run st = (next (action.run st).1).run (action.run st).2 := rfl
    rw [hbind, h.1, hnext.1]
  · intro log
    have hbind : (logged >>= nextLogged).run (st, log) =
      (nextLogged (logged.run (st, log)).1).run (logged.run (st, log)).2 := rfl
    rw [hbind, h.2, hnext.2, List.append_assoc, List.map_append]

/-- A value that is changed afterwards takes the same calls. -/
theorem Performs.map (h : Performs calls a st st' action logged) (f : α → β) :
    Performs calls (f a) st st' (action >>= fun a => pure (f a)) (logged >>= fun a => pure (f a)) := by
  have hmap : Performs (calls ++ []) (f a) st st' (action >>= fun a => pure (f a)) (logged >>= fun a => pure (f a)) :=
    h.bind (performs_pure (f a) st')
  rwa [List.append_nil] at hmap

/-- A replacement performs the one call for its expression. -/
theorem performs_replace (s : Substitution σ) (e given : Expr) (st : σ) :
    Performs [⟨e, given, ((s.replace given).run st).1⟩] ((s.replace given).run st).1 st ((s.replace given).run st).2
      (s.replace given) (s.logged.replace given) :=
  ⟨rfl, fun _ => rfl⟩

end Performs

/-- The calls replace a subject from below, they are about its expressions, each behind what lies below it, and they are the
calls that are made, whatever would have been done again. -/
structure Course (s : Substitution σ) (x : Subject) (calls : List Replacement) (y : Subject) (st st' : σ) : Prop where
  bottomUp : BottomUp s.replace x calls y st st'
  originals : calls.map (·.original) = x.listing .behind
  performs : ∀ again againLogged, Performs calls y st st' (x.substituteWith s again) (x.substituteWith s.logged againLogged)

/-- The same for some subjects one after the other. -/
structure CourseAll (s : Substitution σ) (xs : List Subject) (calls : List Replacement) (ys : List Subject) (st st' : σ) :
    Prop where
  bottomUp : BottomUpAll s.replace xs calls ys st st'
  originals : calls.map (·.original) = xs.flatMap (Subject.listing .behind)
  performs : ∀ again againLogged, Performs calls ys st st' (xs.mapM (Subject.substituteWith s again))
    (xs.mapM (Subject.substituteWith s.logged againLogged))

/-- If there is a course for each of some subjects, there is one for all of them in turn. -/
theorem exists_courseAll {s : Substitution σ} {xs : List Subject}
    (h : ∀ x ∈ xs, ∀ st, ∃ calls y st', s.Course x calls y st st') (st : σ) :
    ∃ calls ys st', s.CourseAll xs calls ys st st' := by
  induction xs generalizing st with
  | nil => exact ⟨[], [], st, .nil, rfl, fun _ _ => performs_pure [] st⟩
  | cons x xs ih =>
    obtain ⟨hx, hxs⟩ := List.forall_mem_cons.1 h
    obtain ⟨calls, y, st', hcourse⟩ := hx st
    obtain ⟨more, ys, st'', hcourses⟩ := ih hxs st'
    refine ⟨calls ++ more, y :: ys, st'', .cons hcourse.bottomUp hcourses.bottomUp, ?_, fun again againLogged => ?_⟩
    · rw [List.map_append, hcourse.originals, hcourses.originals, List.flatMap_cons]
    · rw [List.mapM_cons, List.mapM_cons]
      exact (hcourse.performs again againLogged).bind ((hcourses.performs again againLogged).map (y :: ·))

/-- If operands always come first, there is a course for every subject. -/
theorem exists_course {s : Substitution σ} (hs : ∀ st e, s.operandsFirst st e = true) (x : Subject) (st : σ) :
    ∃ calls y st', s.Course x calls y st st' := by
  induction x using Subject.inductionOn generalizing st with
  | h x ih =>
    obtain ⟨calls, ys, st', hcourses⟩ := exists_courseAll ih st
    have hlogged : ∀ st e, s.logged.operandsFirst st e = true := fun st e => hs st.1 e
    cases x with
    | plan p =>
      refine ⟨calls, _, st', .plan hcourses.bottomUp, ?_, fun again againLogged => ?_⟩
      · rw [hcourses.originals, Subject.listing_plan]
      · rw [substituteWith_of_operandsFirst hs, substituteWith_of_operandsFirst hlogged]
        exact (hcourses.performs again againLogged).map _
    | expr e =>
      refine ⟨_, _, _, .expr hcourses.bottomUp rfl rfl, ?_, fun again againLogged => ?_⟩
      · rw [List.map_append, hcourses.originals, Subject.listing_eq]
        rfl
      · rw [substituteWith_of_operandsFirst hs, substituteWith_of_operandsFirst hlogged]
        refine (hcourses.performs again againLogged).bind ?_
        have hreplace := (performs_replace s e (e.refill (ys.filterMap Subject.plan?) (ys.filterMap Subject.expr?)) st').map
          Subject.expr
        rw [← map_eq_pure_bind, ← map_eq_pure_bind] at hreplace
        exact hreplace

end Substitution

/-- A substitution in a plan, seen as a subject, gives the plan. -/
theorem run_of_map_plan {m : StateM σ Plan} {q : Plan} {st st' : σ} (h : (Subject.plan <$> m).run st = (.plan q, st')) :
    m.run st = (q, st') := by
  have hmap : (Subject.plan <$> m).run st = (.plan (m.run st).1, (m.run st).2) := rfl
  rw [hmap, Prod.mk.injEq, Subject.plan.injEq] at h
  exact Prod.ext h.1 h.2

/-- A substitution that asks for the operands first is a fold from below: it comes to an end whatever it puts in the place of
the expressions, and is called exactly once for each expression of the plan, those of subqueries included, the inputs of a node
before its operands and each expression behind what lies below it. Each call is given the expression with the answers in the
place of its operands, its own answer takes the place of the expression, and nothing else of the plan changes; what the answers
are made of is given to no call. -/
theorem bottomUp_of_operandsFirst {s : Substitution σ} (hs : ∀ st e, s.operandsFirst st e = true) (p : Plan) (st : σ) :
    ∃ calls q st', BottomUp s.replace (.plan p) calls (.plan q) st st' ∧
      calls.map (·.original) = (Subject.plan p).listing .behind ∧
      ∀ limit, (p.substitute s limit).run st = (q, st') ∧
        (p.substitute s.logged limit).run (st, []) = (q, (st', calls.map (·.given))) := by
  obtain ⟨calls, y, st', hcourse⟩ := Substitution.exists_course hs (.plan p) st
  obtain ⟨q, rfl⟩ : ∃ q, y = .plan q := by
    cases hcourse.bottomUp with
    | plan _ => exact ⟨_, rfl⟩
  refine ⟨calls, q, st', hcourse.bottomUp, hcourse.originals, fun limit => ?_⟩
  obtain ⟨hrun, hlogged⟩ :=
    hcourse.performs (Expr.substituteOperands s limit) (Expr.substituteOperands s.logged limit)
  have hnoted := hlogged []
  rw [List.nil_append] at hnoted
  exact ⟨run_of_map_plan hrun, run_of_map_plan hnoted⟩

namespace ComparedSubquery

def wrap (e : Expr) : Expr := .call ⟨"abs", none, none⟩ [e]

/-- Counts its calls and puts a call of a function around each constant. -/
def wrapping : Substitution Nat where
  replace e := do
    modify (· + 1)
    return if e.isConstant then wrap e else e

def wrappedSubquery : Expr :=
  .subquery .value (.values 3 [[wrap (.long 2), .cast (wrap (.long 3)) ⟨.int, true⟩]]) none

def wrappedCondition : Expr := .comparison ⟨⟨0⟩, .eq, .normal⟩ (wrap (.long 1)) wrappedSubquery

end ComparedSubquery

open ComparedSubquery in
/-- Seven calls for seven expressions: those above the constants are given them wrapped, and the wrapped constants are given to
no call a second time. -/
theorem bottomUp_of_wrapping :
    (∀ st e, wrapping.operandsFirst st e = true) ∧
    ∃ calls, BottomUp wrapping.replace (.plan plan) calls
        (.plan (.unary 2 .select (.values 1 [[wrap (.long 4)]]) [wrappedCondition])) 0 7 ∧
      calls.map (·.original) =
        [.long 4, .long 1, .long 2, .long 3, .cast (.long 3) ⟨.int, true⟩, subquery, condition] ∧
      calls.map (·.given) = [.long 4, .long 1, .long 2, .long 3, .cast (wrap (.long 3)) ⟨.int, true⟩, wrappedSubquery,
        wrappedCondition] := by
  have hfirst : ∀ st e, wrapping.operandsFirst st e = true := fun _ _ => rfl
  obtain ⟨calls, q, st', hcalls, horiginals, hrun⟩ := bottomUp_of_operandsFirst hfirst plan 0
  obtain ⟨hplan, hlogged⟩ := hrun 0
  have hend : (q, st') = (.unary 2 .select (.values 1 [[wrap (.long 4)]]) [wrappedCondition], 7) := hplan.symm
  have hgiven : calls.map (·.given) = _ := (congrArg (fun r => r.2.2) hlogged).symm
  cases hend
  exact ⟨hfirst, calls, hcalls, horiginals, hgiven⟩

end ClusterPlan
