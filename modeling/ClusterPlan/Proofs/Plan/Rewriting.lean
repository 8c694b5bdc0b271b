import ClusterPlan.Plan.Substitution
import ClusterPlan.Proofs.Plan.WalkLog
import Mathlib.Data.List.MinMax

/-!
# Reading and rewriting

A walk that nothing holds up and a substitution that changes nothing go through the same expressions in the same order: the
expressions of a subject are listed either with each one in front of what lies below it or with each one behind it
(`Subject.listing`). The walk tells of them in the first order when it enters them and in the second one when it leaves them;
the substitution is given them in the first order if it comes before the operands, and in the second one if the operands come
first.
-/

namespace ClusterPlan

/-- The expression that a subject is, if it is one. -/
def Subject.expr? : Subject → Option Expr
  | plan _ => none
  | expr e => some e

/-- The place of an expression among those below it. -/
inductive Order where
  | before
  | behind
deriving DecidableEq

namespace Order

/-- Puts a subject in its place, if it is an expression. -/
def place (o : Order) (x : Subject) (below : List Expr) : List Expr :=
  match o with
  | before => x.expr?.toList ++ below
  | behind => below ++ x.expr?.toList

/-- The expression that a call of a visitor brings, if the call belongs to an order: a leaf is visited, other expressions are
entered before what lies below and left behind it. -/
def call? : Order → WalkEvent → Option Expr
  | before, .enter x _ | behind, .leave x _ | _, .visit x _ => x.expr?
  | before, .leave _ _ | behind, .enter _ _ => none

/-- Between the enter and the leave of a subject there are the calls for what lies below it. -/
theorem filterMap_call?_around (o : Order) (x : Subject) (b c : Bool) (events : List WalkEvent) :
    (.enter x b :: (events ++ [.leave x c])).filterMap o.call? = o.place x (events.filterMap o.call?) := by
  rcases x with p | e <;> cases o <;> simp [List.filterMap_cons, call?, place, Subject.expr?]

end Order

namespace Subject

/-- All expressions of a subject, its own and those that lie below. -/
def listing (o : Order) : Subject → List Expr := fold fun x below => o.place x below.flatten

/-- How many expressions have something below them on the longest way down from a subject. -/
def nesting : Subject → Nat :=
  fold fun
    | plan _, below => below.foldr max 0
    | expr _, below => (below.map (· + 1)).foldr max 0

section Listing

variable {x y : Subject} {p : Plan} {e : Expr}

/-- A listing has the expression itself before or after what lies below it, as the order says. -/
theorem listing_eq (o : Order) (x : Subject) : x.listing o = o.place x (x.below.flatMap (listing o)) := fold_eq _ _

/-- Plans are not listed, only what lies below them. -/
theorem listing_plan (o : Order) (p : Plan) : (plan p).listing o = (plan p).below.flatMap (listing o) := by
  rw [listing_eq]
  cases o with
  | before => rfl
  | behind => exact List.append_nil _

/-- What lies below a plan is nested no deeper than the plan. -/
theorem nesting_le (h : y ∈ (plan p).below) : y.nesting ≤ (plan p).nesting := by
  rw [nesting, fold_eq _ (plan p)]
  exact List.le_max_of_le' 0 (List.mem_map_of_mem h) le_rfl

/-- What lies below an expression is nested less deep. -/
theorem nesting_lt (h : y ∈ (expr e).below) : y.nesting < (expr e).nesting := by
  rw [nesting, fold_eq _ (expr e)]
  exact List.le_max_of_le' 0 (List.mem_map_of_mem (List.mem_map_of_mem h)) le_rfl

end Listing

end Subject

/-! ## Reading -/

/-- Whatever the visitor answers is `true`. -/
def Visitor.NeverPrunes {σ : Type} (v : Visitor σ) : Prop := ∀ e, v.Gives e → e.answer = true

section Reading

variable {below : Subject → List Subject} {o : Order}

/-- What a walk answers is the answer of one of its events. -/
theorem Walk.exists_answer {x : Subject} {events : List WalkEvent} {b : Bool} (h : Walk below x events b) :
    ∃ e ∈ events, e.answer = b := by
  cases h with
  | visited _ => exact ⟨.visit x b, List.mem_singleton_self _, rfl⟩
  | refused _ => exact ⟨.leave x b, List.mem_cons_of_mem _ (List.mem_singleton_self _), rfl⟩
  | entered _ _ =>
    exact ⟨.leave x b, List.mem_cons_of_mem _ (List.mem_append_right _ (List.mem_singleton_self _)), rfl⟩

section Lists

variable {β : Type} {f : WalkEvent → Option β} {g : Subject → List β}

mutual

/-- What a walk with nothing but answers `true` makes of its events, subject by subject. -/
theorem Walk.filterMap_eq (hleaf : ∀ x b, x.isLeaf → [.visit x b].filterMap f = g x)
    (hinner : ∀ x b c (events : List WalkEvent), events.filterMap f = x.below.flatMap g →
      (.enter x b :: (events ++ [.leave x c])).filterMap f = g x)
    {x : Subject} {events : List WalkEvent} {b : Bool} :
    Walk Subject.below x events b → (∀ e ∈ events, e.answer = true) → events.filterMap f = g x
  | .visited hx, _ => hleaf _ _ hx
  | .refused _, hall => absurd (List.forall_mem_cons.1 hall).1 Bool.false_ne_true
  | .entered _ h, hall =>
    hinner _ _ _ _ (h.filterMap_eq hleaf hinner (List.forall_mem_append.1 (List.forall_mem_cons.1 hall).2).1)

/-- What is picked from the events of walks is what is picked for their subjects, one after the other. -/
theorem Walks.filterMap_eq (hleaf : ∀ x b, x.isLeaf → [.visit x b].filterMap f = g x)
    (hinner : ∀ x b c (events : List WalkEvent), events.filterMap f = x.below.flatMap g →
      (.enter x b :: (events ++ [.leave x c])).filterMap f = g x)
    {xs : List Subject} {events : List WalkEvent} {go : Bool} :
    Walks Subject.below xs events go → (∀ e ∈ events, e.answer = true) → events.filterMap f = xs.flatMap g
  | .nil, _ => rfl
  | .stopped h, hall => by
    obtain ⟨e, he, hfalse⟩ := h.exists_answer
    exact absurd (hfalse.symm.trans (hall e he)) Bool.false_ne_true
  | .cons h hs, hall => by
    rw [List.filterMap_append, h.filterMap_eq hleaf hinner (List.forall_mem_append.1 hall).1,
      hs.filterMap_eq hleaf hinner (List.forall_mem_append.1 hall).2, List.flatMap_cons]

end

/-- A walk that nothing holds up tells of all that lies below: what comes from its calls is put together subject by subject. -/
theorem Visitor.NeverPrunes.filterMap_eq {σ : Type} {v : Visitor σ} (hv : v.NeverPrunes)
    (hleaf : ∀ x b, x.isLeaf → [.visit x b].filterMap f = g x)
    (hinner : ∀ x b c (events : List WalkEvent), events.filterMap f = x.below.flatMap g →
      (.enter x b :: (events ++ [.leave x c])).filterMap f = g x) (x : Subject) (s : σ) :
    ((x.acceptDeep v.logged).run (s, [])).2.2.filterMap f = g x := by
  obtain ⟨events, hrun, hgives, hwalk⟩ := v.records_acceptDeep x s []
  rw [hrun]
  exact hwalk.filterMap_eq hleaf hinner fun e he => hv e (hgives e he)

end Lists

/-- A walk that nothing holds up tells of all expressions of a subject. -/
theorem Visitor.NeverPrunes.reads {σ : Type} {v : Visitor σ} (hv : v.NeverPrunes) (x : Subject) (s : σ) :
    ((x.acceptDeep v.logged).run (s, [])).2.2.filterMap o.call? = x.listing o := by
  refine hv.filterMap_eq ?_ ?_ x s
  · intro x b hx
    rw [Subject.listing_eq, Subject.below_of_isLeaf hx]
    rcases x with p | e <;> cases o <;> rfl
  · intro x b c events hevents
    rw [Order.filterMap_call?_around, hevents, Subject.listing_eq]

end Reading

/-! ## Rewriting -/

namespace Substitution

variable {σ α β : Type}

/-- The substitution that notes each expression that it is given behind those noted before. -/
def logged (s : Substitution σ) : Substitution (σ × List Expr) where
  operandsFirst st e := s.operandsFirst st.1 e
  replace e := do
    let (st, log) ← get
    let (e', st) := (s.replace e).run st
    set (st, log ++ [e])
    return e'

/-- The substitution puts every expression back in its place, and comes to it in the given order. -/
structure Identical (s : Substitution σ) (o : Order) : Prop where
  replace : ∀ e st, ((s.replace e).run st).1 = e
  operandsFirst : ∀ st e, s.operandsFirst st e = decide (o = .behind)

/-- An action returns `a`, with a log as well as without, and the expressions that it notes are `seen`. -/
def Returns (action : StateM σ α) (logged : StateM (σ × List Expr) α) (a : α) (seen : List Expr) : Prop :=
  ∀ st log, (action.run st).1 = a ∧ logged.run (st, log) = (a, ((action.run st).2, log ++ seen))

section Returns

variable {action : StateM σ α} {logged : StateM (σ × List Expr) α} {a : α} {seen more : List Expr}

/-- A value that is ready is returned, and nothing is seen. -/
theorem returns_pure (a : α) : Returns (σ := σ) (pure a) (pure a) a [] := by
  intro st log
  rw [List.append_nil]
  exact ⟨rfl, rfl⟩

/-- Actions one after the other return and see one after the other. -/
theorem Returns.bind {next : α → StateM σ β} {nextLogged : α → StateM (σ × List Expr) β} {b : β}
    (h : Returns action logged a seen) (hnext : Returns (next a) (nextLogged a) b more) :
    Returns (action >>= next) (logged >>= nextLogged) b (seen ++ more) := by
  intro st log
  obtain ⟨ha, hlogged⟩ := h st log
  obtain ⟨hb, hboth⟩ := hnext (action.run st).2 (log ++ seen)
  have hbind : (action >>= next).run st = (next (action.run st).1).run (action.run st).2 := rfl
  have hbindLogged : (logged >>= nextLogged).run (st, log) =
    (nextLogged (logged.run (st, log)).1).run (logged.run (st, log)).2 := rfl
  rw [hbind, hbindLogged, ha, hlogged, hboth, List.append_assoc]
  exact ⟨hb, rfl⟩

/-- A value may be changed after it was returned. -/
theorem Returns.map (h : Returns action logged a seen) (f : α → β) :
    Returns (action >>= fun a => pure (f a)) (logged >>= fun a => pure (f a)) (f a) seen := by
  have hmap : Returns (action >>= fun a => pure (f a)) (logged >>= fun a => pure (f a)) (f a) (seen ++ []) :=
    h.bind (returns_pure (f a))
  rwa [List.append_nil] at hmap

variable {s : Substitution σ} {o : Order} {e : Expr} {again : Expr → StateM σ Expr} {operands : StateM σ Expr}

/-- The order of a substitution says whether operands come before the expression or after it. -/
theorem around_eq {b : Bool} (h : ∀ st, s.operandsFirst st e = b) :
    s.around again e operands = if b then operands >>= s.replace else s.replace e >>= again := by
  refine StateT.ext fun st => ?_
  have hchoice : (s.around again e operands).run st =
    (if s.operandsFirst st e then operands >>= s.replace else s.replace e >>= again).run st := rfl
  rw [hchoice, h st]

/-- A substitution that changes nothing sees the expression and returns it. -/
theorem Identical.returns_replace (hs : s.Identical o) (e : Expr) : Returns (s.replace e) (s.logged.replace e) e [e] := by
  intro st log
  have hlogged : (s.logged.replace e).run (st, log) =
    (((s.replace e).run st).1, (((s.replace e).run st).2, log ++ [e])) := rfl
  rw [hlogged, hs.replace]
  exact ⟨rfl, rfl⟩

/-- The place of an expression is before or behind what is noted of its operands. -/
theorem Identical.returns_around (hs : s.Identical o) {againLogged : Expr → StateM (σ × List Expr) Expr}
    {operandsLogged : StateM (σ × List Expr) Expr} (hagain : o = .before → Returns (again e) (againLogged e) e seen)
    (hoperands : o = .behind → Returns operands operandsLogged e seen) :
    Returns (s.around again e operands) (s.logged.around againLogged e operandsLogged) e (o.place (.expr e) seen) := by
  rw [around_eq fun st => hs.operandsFirst st e, around_eq fun st => hs.operandsFirst st.1 e]
  cases o with
  | before => exact (hs.returns_replace e).bind (hagain rfl)
  | behind => exact (hoperands rfl).bind (hs.returns_replace e)

end Returns

/-! ### What lies below -/

/-- A subject stays as it is, and all of its expressions are noted. -/
def Restores (s : Substitution σ) (o : Order) (again : Expr → StateM σ Expr)
    (againLogged : Expr → StateM (σ × List Expr) Expr) : Subject → Prop
  | .plan p => Returns (p.substituteWith s again) (p.substituteWith s.logged againLogged) p (Subject.listing o (.plan p))
  | .expr e => Returns (e.substituteWith s again) (e.substituteWith s.logged againLogged) e (Subject.listing o (.expr e))

section Restores

variable {s : Substitution σ} {o : Order} {again : Expr → StateM σ Expr} {againLogged : Expr → StateM (σ × List Expr) Expr}

/-- A list of expressions comes back as it was, and is seen in the order of its listing. -/
theorem returns_substituteAllWith {es : List Expr} (h : ∀ e ∈ es, s.Restores o again againLogged (.expr e)) :
    Returns (Expr.substituteAllWith s again es) (Expr.substituteAllWith s.logged againLogged es) es
      ((es.map Subject.expr).flatMap (Subject.listing o)) := by
  induction es with
  | nil => exact returns_pure []
  | cons e es ih =>
    obtain ⟨he, hes⟩ := List.forall_mem_cons.1 h
    exact Returns.bind he ((ih hes).map (e :: ·))

theorem returns_substituteRowsWith {rows : List (List Expr)}
    (h : ∀ e ∈ rows.flatten, s.Restores o again againLogged (.expr e)) :
    Returns (Expr.substituteRowsWith s again rows) (Expr.substituteRowsWith s.logged againLogged rows) rows
      ((rows.flatten.map Subject.expr).flatMap (Subject.listing o)) := by
  induction rows with
  | nil => exact returns_pure []
  | cons row rows ih =>
    obtain ⟨hrow, hrows⟩ := List.forall_mem_append.1 h
    rw [List.flatten_cons, List.map_append, List.flatMap_append]
    exact (returns_substituteAllWith hrow).bind ((ih hrows).map (row :: ·))

theorem returns_bound {e : Expr} {inclusive : Bool} (h : s.Restores o again againLogged (.expr e)) :
    Returns (do return some (Bound.mk (← e.substituteWith s again) inclusive))
      (do return some (Bound.mk (← e.substituteWith s.logged againLogged) inclusive)) (some ⟨e, inclusive⟩)
      (([e].map Subject.expr).flatMap (Subject.listing o)) := by
  rw [List.map_singleton, List.flatMap_singleton]
  exact Returns.map h _

theorem returns_substituteWith_scan : ∀ {scan : Scan}, (∀ e ∈ scan.comparands, s.Restores o again againLogged (.expr e)) →
    Returns (scan.substituteWith s again) (scan.substituteWith s.logged againLogged) scan
      ((scan.comparands.map Subject.expr).flatMap (Subject.listing o))
  | .single head ⟨_, _, _, _, equality, unions, low, high⟩, h => by
    obtain ⟨h, hhigh⟩ := List.forall_mem_append.1 h
    obtain ⟨h, hlow⟩ := List.forall_mem_append.1 h
    obtain ⟨hequality, hunions⟩ := List.forall_mem_append.1 h
    rw [Scan.comparands, SingleScan.comparands, List.map_append, List.map_append, List.map_append, List.flatMap_append,
      List.flatMap_append, List.flatMap_append, List.append_assoc, List.append_assoc]
    rcases low with _ | ⟨low, _⟩ <;> rcases high with _ | ⟨high, _⟩
    all_goals refine (returns_substituteAllWith hequality).bind ((returns_substituteRowsWith hunions).bind ?_)
    · exact (returns_pure none).bind ((returns_pure none).map _)
    · exact (returns_pure none).bind ((returns_bound (hhigh _ (List.mem_singleton_self _))).map _)
    · exact (returns_bound (hlow _ (List.mem_singleton_self _))).bind ((returns_pure none).map _)
    · exact (returns_bound (hlow _ (List.mem_singleton_self _))).bind
        ((returns_bound (hhigh _ (List.mem_singleton_self _))).map _)
  | .intersect head n output selector, h => by
    obtain ⟨houtput, hselector⟩ := List.forall_mem_append.1 h
    rw [Scan.comparands, List.map_append, List.flatMap_append]
    exact (returns_substituteWith_scan houtput).bind ((returns_substituteWith_scan hselector).map _)

/-- A plan comes back as it was if all that lies below it does. -/
theorem restores_plan {p : Plan} (h : ∀ x ∈ (Subject.plan p).below, s.Restores o again againLogged x) :
    s.Restores o again againLogged (.plan p) := by
  rw [Restores, Subject.listing_plan]
  cases p with
  | leaf id op => exact returns_pure _
  | probe id op operands => exact (returns_substituteAllWith (List.forall_mem_map.1 h)).map _
  | values id rows => exact (returns_substituteRowsWith (List.forall_mem_map.1 h)).map _
  | unary id op input operands =>
    obtain ⟨hinput, h⟩ := List.forall_mem_cons.1 h
    exact Returns.bind hinput ((returns_substituteAllWith (List.forall_mem_map.1 h)).map _)
  | binary id op left right operands =>
    obtain ⟨hleft, h⟩ := List.forall_mem_cons.1 h
    obtain ⟨hright, h⟩ := List.forall_mem_cons.1 h
    exact Returns.bind hleft (Returns.bind hright ((returns_substituteAllWith (List.forall_mem_map.1 h)).map _))
  | aggregate id op phase input =>
    obtain ⟨hinput, h⟩ := List.forall_mem_cons.1 h
    cases phase with
    | bare groupBy => exact Returns.bind hinput ((returns_substituteAllWith (List.forall_mem_map.1 h)).map _)
    | resolved groupBy aggregates =>
      obtain ⟨hgroupBy, haggregates⟩ := List.forall_mem_append.1 (List.forall_mem_map.1 h)
      have hbelow : (Subject.plan (.aggregate id op (.resolved groupBy aggregates) input)).below =
          .plan input :: (groupBy.map .expr ++ aggregates.map .expr) :=
        congrArg (Subject.plan input :: ·) List.map_append
      rw [hbelow, List.flatMap_cons, List.flatMap_append]
      exact Returns.bind hinput ((returns_substituteAllWith hgroupBy).bind ((returns_substituteAllWith haggregates).map _))
    | split info => exact Returns.bind hinput (returns_pure _)
  | tableJoins id group input scans => exact Returns.bind (h _ (List.mem_singleton_self _)) (returns_pure _)
  | joinTree id group nodes conditions scan =>
    cases scan with
    | none => exact (returns_substituteRowsWith (List.forall_mem_map.1 h)).map _
    | some scan =>
      obtain ⟨hscan, h⟩ := List.forall_mem_cons.1 h
      exact Returns.bind hscan ((returns_substituteRowsWith (List.forall_mem_map.1 h)).map _)
  | indexScan scan => exact (returns_substituteWith_scan (List.forall_mem_map.1 h)).map _

/-- The operands of an expression stay as they are. -/
theorem returns_substituteOperandsWith {e : Expr} (h : ∀ x ∈ (Subject.expr e).below, s.Restores o again againLogged x) :
    Returns (e.substituteOperandsWith s again) (e.substituteOperandsWith s.logged againLogged) e
      ((Subject.expr e).below.flatMap (Subject.listing o)) := by
  cases e with
  | constant | parameter | column => exact returns_pure _
  | cast operand type => exact Returns.bind (h _ (List.mem_singleton_self _)) (returns_pure _)
  | subquery kind plan type => exact Returns.bind (h _ (List.mem_singleton_self _)) (returns_pure _)
  | aggregate f operand =>
    cases operand with
    | none => exact returns_pure _
    | some operand => exact Returns.bind (h _ (List.mem_singleton_self _)) (returns_pure _)
  | comparison c left right =>
    obtain ⟨hleft, h⟩ := List.forall_mem_cons.1 h
    exact Returns.bind hleft (Returns.bind (h _ (List.mem_singleton_self _)) (returns_pure _))
  | inList operand list =>
    obtain ⟨hoperand, h⟩ := List.forall_mem_cons.1 h
    exact Returns.bind hoperand ((returns_substituteAllWith (List.forall_mem_map.1 h)).map _)
  | call f operands | logical op operands | special f operands =>
    exact (returns_substituteAllWith (List.forall_mem_map.1 h)).map _

end Restores

/-- An expression is replaced before or after its operands are substituted. -/
theorem substituteWith_eq (s : Substitution σ) (again : Expr → StateM σ Expr) (e : Expr) :
    e.substituteWith s again = s.around again e (e.substituteOperandsWith s again) := by
  cases e with
  | aggregate f operand => cases operand <;> rfl
  | _ => rfl

/-- A substitution that changes nothing restores everything, in its order. One that comes before the operands has to be let
in as often as there are operands one inside the other. -/
theorem Identical.restores {s : Substitution σ} {o : Order} (hs : s.Identical o) (x : Subject) {limit : Nat}
    (hlimit : o = .before → x.nesting ≤ limit) :
    s.Restores o (Expr.substituteOperands s limit) (Expr.substituteOperands s.logged limit) x := by
  induction x using Subject.inductionOn generalizing limit with
  | h x ih =>
    cases x with
    | plan p =>
      refine restores_plan fun y hy => ih y hy fun ho => ?_
      exact (Subject.nesting_le hy).trans (hlimit ho)
    | expr e =>
      rw [Restores, Subject.listing_eq, substituteWith_eq, substituteWith_eq]
      refine hs.returns_around ?_ ?_
      · intro ho
        cases limit with
        | zero =>
          have hbelow : (Subject.expr e).below = [] := by
            refine List.eq_nil_iff_forall_not_mem.2 fun y hy => ?_
            exact absurd ((Subject.nesting_lt hy).trans_le (hlimit ho)) (Nat.not_lt_zero _)
          rw [hbelow]
          exact returns_pure e
        | succ limit =>
          refine returns_substituteOperandsWith fun y hy => ih y hy fun _ => ?_
          exact Nat.le_of_lt_succ ((Subject.nesting_lt hy).trans_le (hlimit ho))
      · intro ho
        refine returns_substituteOperandsWith fun y hy => ih y hy fun hbefore => ?_
        exact absurd (ho.symm.trans hbefore) (by decide)

end Substitution

/-- Reading and rewriting see the same expressions: a substitution that changes nothing is given the expressions that a walk
tells of, if the walk is answered with `true` throughout, those that it enters and visits if the substitution comes before the
operands, and those that it leaves and visits if the operands come first. The plan stays as it is. -/
theorem rewrites_as_read {σ τ : Type} (o : Order) {v : Visitor σ} (hv : v.NeverPrunes) {s : Substitution τ}
    (hs : s.Identical o) (p : Plan) {limit : Nat} (hlimit : o = .before → (Subject.plan p).nesting ≤ limit) (st : σ)
    (st' : τ) :
    (p.substitute s.logged limit).run (st', []) =
        (p, (((p.substitute s limit).run st').2, ((p.acceptDeep v.logged).run (st, [])).2.2.filterMap o.call?)) ∧
      ((p.substitute s limit).run st').1 = p := by
  obtain ⟨hplan, hlogged⟩ := hs.restores (.plan p) hlimit st' []
  have hreads : ((p.acceptDeep v.logged).run (st, [])).2.2.filterMap o.call? = (Subject.plan p).listing o :=
    hv.reads (.plan p) st
  rw [hreads]
  exact ⟨hlogged, hplan⟩

namespace ComparedSubquery

/-- A subquery with a row of a two and a three. -/
def subquery : Expr := .subquery .value (.values 3 [[.long 2, .cast (.long 3) ⟨.int, true⟩]]) none

/-- A one compared with the value of the subquery. -/
def condition : Expr := .comparison ⟨⟨0⟩, .eq, .normal⟩ (.long 1) subquery

def plan : Plan := .unary 2 .select (.values 1 [[.long 4]]) [condition]

/-- Puts everything back in its place. -/
def identity (o : Order) : Substitution Unit where
  operandsFirst _ _ := decide (o = .behind)
  replace e := pure e

/-- The substitution that gives back what it gets changes nothing. -/
theorem identical_identity (o : Order) : (identity o).Identical o := ⟨fun _ _ => rfl, fun _ _ => rfl⟩

end ComparedSubquery

open ComparedSubquery in
/-- The plan of a subquery is read and rewritten within the subquery, before its operands or behind them. -/
theorem rewrites_as_read_of_subquery :
    Visitor.NeverPrunes ({} : Visitor Unit) ∧ (∀ o, (identity o).Identical o) ∧ (Subject.plan plan).nesting ≤ 3 ∧
      (plan.substitute (identity .before).logged 3).run ((), []) =
        (plan, ((), [.long 4, condition, .long 1, subquery, .long 2, .cast (.long 3) ⟨.int, true⟩, .long 3])) ∧
      (plan.substitute (identity .behind).logged 0).run ((), []) =
        (plan, ((), [.long 4, .long 1, .long 2, .long 3, .cast (.long 3) ⟨.int, true⟩, subquery, condition])) := by
  have hv : Visitor.NeverPrunes ({} : Visitor Unit) := by
    rintro (⟨x, b⟩ | ⟨x, b⟩ | ⟨x, b⟩) ⟨_, rfl⟩ <;> cases x <;> rfl
  have hnesting : (Subject.plan plan).nesting ≤ 3 := by decide
  have hbefore := rewrites_as_read .before hv (identical_identity .before) plan (fun _ => hnesting) () ()
  have hlimit : Order.behind = .before → (Subject.plan plan).nesting ≤ 0 := fun h => nomatch h
  have hbehind := rewrites_as_read .behind hv (identical_identity .behind) plan hlimit () ()
  exact ⟨hv, identical_identity, hnesting, hbefore.1, hbehind.1⟩

end ClusterPlan
