import ClusterPlan.Proofs.Plan.Substituting

/-!
# Replacing leaves

Constants, parameters and columns are the leaves of expressions. Replacing all of them at once by other leaves
(`Subject.mapLeaves`) keeps all that is above them, and doing so twice is doing so once with both replacements
(`Subject.mapLeaves_mapLeaves`). A substitution that replaces leaves only does just that, in whatever order it comes to
expressions and their operands (`leaves_replaced_at_once`).
-/

namespace ClusterPlan

variable {σ α β : Type}

namespace Subject

/-- The leaf that a subject is, if it is one: a constant, a parameter or a column. -/
def leaf? : Subject → Option Expr
  | plan _ => none
  | expr e => if e.isLeaf then some e else none

/-- Replaces the leaves of all expressions at once; all else stays. -/
def mapLeaves (f : Expr → Expr) : Subject → Subject :=
  fold fun x ys =>
    match x.leaf? with
    | some e => expr (f e)
    | none => x.withBelow ys

/-- The leaves of all expressions of a subject. -/
def leaves : Subject → List Expr := fold fun x below => x.leaf?.toList ++ below.flatten

variable {f g : Expr → Expr} {x : Subject} {ys : List Subject} {e : Expr}

/-- A subject is a leaf exactly if it is an expression that is one: a constant, a parameter or a column. -/
theorem leaf?_eq_some_iff : x.leaf? = some e ↔ x = expr e ∧ e.isLeaf := by
  cases x with
  | plan p => simp [leaf?]
  | expr e' =>
    rw [leaf?, Option.ite_none_right_eq_some, expr.injEq, Option.some.injEq]
    constructor
    · rintro ⟨h, rfl⟩
      exact ⟨rfl, h⟩
    · rintro ⟨rfl, h⟩
      exact ⟨h, rfl⟩

/-- An expression that is a leaf is one as a subject. -/
theorem leaf?_expr_of_isLeaf (h : e.isLeaf) : (expr e).leaf? = some e := if_pos h

/-- Nothing lies below a leaf. -/
theorem below_of_leaf? (h : x.leaf? = some e) : x.below = [] := by
  obtain ⟨rfl, he⟩ := leaf?_eq_some_iff.1 h
  exact below_of_isLeaf he

/-- A subject that is no leaf stays none when other things are put below it. -/
theorem leaf?_withBelow (h : x.leaf? = none) (ys : List Subject) : (x.withBelow ys).leaf? = none := by
  cases x with
  | plan p => rfl
  | expr e => cases e <;> first | rfl | cases h

/-- A leaf is mapped itself. -/
theorem mapLeaves_of_some (h : x.leaf? = some e) : x.mapLeaves f = expr (f e) := by
  rw [mapLeaves, fold_eq, h]

/-- In what is no leaf the leaves below it are mapped. -/
theorem mapLeaves_of_none (h : x.leaf? = none) : x.mapLeaves f = x.withBelow (x.below.map (mapLeaves f)) := by
  rw [mapLeaves, fold_eq, h]

/-- Mapping leaves makes no plan an expression and no expression a plan. -/
theorem isPlan_mapLeaves (f : Expr → Expr) (x : Subject) : (x.mapLeaves f).isPlan = x.isPlan := by
  cases h : x.leaf? with
  | none => rw [mapLeaves_of_none h, isPlan_withBelow]
  | some e =>
    obtain ⟨rfl, -⟩ := leaf?_eq_some_iff.1 h
    rw [mapLeaves_of_some h]
    rfl

/-- What lies below a subject can be put there again after its leaves were mapped. -/
theorem fits_map_mapLeaves (f : Expr → Expr) (x : Subject) : x.Fits (x.below.map (mapLeaves f)) := by
  rw [Fits, List.map_map]
  exact List.map_congr_left fun y _ => isPlan_mapLeaves f y

/-- What lies below after leaves were mapped is what lay there with its leaves mapped. -/
theorem below_mapLeaves (h : x.leaf? = none) (f : Expr → Expr) : (x.mapLeaves f).below = x.below.map (mapLeaves f) := by
  rw [mapLeaves_of_none h, below_withBelow (fits_map_mapLeaves f x)]

/-- If leaves are mapped to leaves, the leaves are where they were. -/
theorem leaf?_mapLeaves (hf : ∀ e, e.isLeaf → (f e).isLeaf) (x : Subject) : (x.mapLeaves f).leaf? = x.leaf?.map f := by
  cases h : x.leaf? with
  | none =>
    rw [mapLeaves_of_none h, leaf?_withBelow h]
    rfl
  | some e =>
    rw [mapLeaves_of_some h]
    exact leaf?_expr_of_isLeaf (hf e (leaf?_eq_some_iff.1 h).2)

/-- Replacing leaves twice is replacing them once. -/
theorem mapLeaves_mapLeaves (hf : ∀ e, e.isLeaf → (f e).isLeaf) (g : Expr → Expr) (x : Subject) :
    (x.mapLeaves f).mapLeaves g = x.mapLeaves (g ∘ f) := by
  induction x using Subject.inductionOn with
  | h x ih =>
    have hleaf := leaf?_mapLeaves hf x
    cases h : x.leaf? with
    | some e =>
      rw [h] at hleaf
      rw [mapLeaves_of_some hleaf, mapLeaves_of_some h]
      rfl
    | none =>
      rw [h] at hleaf
      have hbelow : (x.below.map (mapLeaves f)).map (mapLeaves g) = x.below.map (mapLeaves (g ∘ f)) := by
        rw [List.map_map]
        exact List.map_congr_left ih
      rw [mapLeaves_of_none hleaf, below_mapLeaves h, mapLeaves_of_none h, hbelow, mapLeaves_of_none h,
        withBelow_withBelow (fits_map_mapLeaves f x) (fits_map_mapLeaves _ x)]

/-- The leaves of a subject are the subject, if it is one, and those below it. -/
theorem leaves_eq (x : Subject) : x.leaves = x.leaf?.toList ++ x.below.flatMap leaves := fold_eq _ _

/-- If leaves are mapped to leaves, what lies below is mapped in every case. -/
theorem below_mapLeaves_eq (hf : ∀ e, e.isLeaf → (f e).isLeaf) (x : Subject) :
    (x.mapLeaves f).below = x.below.map (mapLeaves f) := by
  cases h : x.leaf? with
  | none => exact below_mapLeaves h f
  | some e =>
    have hleaf := leaf?_mapLeaves hf x
    rw [h] at hleaf
    rw [below_of_leaf? hleaf, below_of_leaf? h]
    rfl

/-- The leaves stay in their order. -/
theorem leaves_mapLeaves (hf : ∀ e, e.isLeaf → (f e).isLeaf) (x : Subject) : (x.mapLeaves f).leaves = x.leaves.map f := by
  induction x using Subject.inductionOn with
  | h x ih =>
    have hbelow : (x.below.map (mapLeaves f)).flatMap leaves = (x.below.flatMap leaves).map f := by
      rw [List.flatMap_map, List.map_flatMap]
      exact List.flatMap_congr ih
    rw [leaves_eq, leaf?_mapLeaves hf, below_mapLeaves_eq hf, hbelow, leaves_eq x, List.map_append, Option.toList_map]

/-- Subjects of one kind with equally nested parts are equally nested. -/
theorem nesting_congr {y : Subject} (hkind : x.isPlan = y.isPlan) (hbelow : x.below.map nesting = y.below.map nesting) :
    x.nesting = y.nesting := by
  rw [nesting, fold_eq, fold_eq _ y]
  rcases x with p | e <;> rcases y with q | e'
  · exact congrArg (List.foldr max 0) hbelow
  · cases hkind
  · cases hkind
  · exact congrArg (fun ns => (ns.map (· + 1)).foldr max 0) hbelow

/-- Mapping leaves to leaves leaves the nesting. -/
theorem nesting_mapLeaves (hf : ∀ e, e.isLeaf → (f e).isLeaf) (x : Subject) : (x.mapLeaves f).nesting = x.nesting := by
  induction x using Subject.inductionOn with
  | h x ih =>
    refine nesting_congr (isPlan_mapLeaves f x) ?_
    rw [below_mapLeaves_eq hf, List.map_map]
    exact List.map_congr_left ih

end Subject

/-! ## Substitutions of leaves -/

namespace Substitution

/-- The substitution replaces leaves and puts all other expressions back in their place, whatever comes first. -/
def OfLeaves (s : Substitution σ) (f : Expr → Expr) : Prop :=
  ∀ e st, ((s.replace e).run st).1 = if e.isLeaf then f e else e

/-- An action returns the same in every state. -/
def Yields (action : StateM σ α) (a : α) : Prop := ∀ st, (action.run st).1 = a

/-- If an action yields a result for each element, it yields the results for the list. -/
theorem yields_mapM {α β : Type} {action : α → StateM σ β} {result : α → β} {xs : List α}
    (h : ∀ x ∈ xs, Yields (action x) (result x)) : Yields (xs.mapM action) (xs.map result) := by
  intro st
  induction xs generalizing st with
  | nil => rfl
  | cons x xs ih =>
    obtain ⟨hx, hxs⟩ := List.forall_mem_cons.1 h
    rw [List.mapM_cons]
    exact congrArg₂ List.cons (hx st) (ih hxs _)

/-- Actions one after the other yield what the second yields with the result of the first. -/
theorem Yields.bind {action : StateM σ α} {next : α → StateM σ β} {a : α} {b : β} (h : Yields action a)
    (hnext : Yields (next a) b) : Yields (action >>= next) b := by
  intro st
  have hbind : (action >>= next).run st = (next (action.run st).1).run (action.run st).2 := rfl
  rw [hbind, h st, hnext]

/-- A result may be changed afterwards. -/
theorem Yields.map {action : StateM σ α} {a : α} (h : Yields action a) (f : α → β) : Yields (f <$> action) (f a) :=
  fun st => congrArg f (h st)

variable {s : Substitution σ} {f : Expr → Expr}

/-- The replacement of an expression yields the image of a leaf and leaves all else. -/
theorem OfLeaves.yields_replace (hs : s.OfLeaves f) (e : Expr) : Yields (s.replace e) (if e.isLeaf then f e else e) := hs e

/-- The operands of a leaf, which has none, are replaced whatever the limit. -/
theorem substituteOperands_of_isLeaf {e : Expr} (h : e.isLeaf) (limit : Nat) : Expr.substituteOperands s limit e = pure e := by
  cases limit with
  | zero => rfl
  | succ limit => cases e <;> first | rfl | cases h

/-- A leaf has no operands that could be replaced. -/
theorem substituteOperandsWith_of_isLeaf {again : Expr → StateM σ Expr} {e : Expr} (h : e.isLeaf) :
    e.substituteOperandsWith s again = pure e := by
  cases e <;> first | rfl | cases h

/-- An expression comes out the same before its operands and behind them. -/
theorem Yields.around {again : Expr → StateM σ Expr} {e e' : Expr} {operands : StateM σ Expr}
    (hfirst : Yields (operands >>= s.replace) e') (hlast : Yields (s.replace e >>= again) e') :
    Yields (s.around again e operands) e' := by
  intro st
  have hchoice : (s.around again e operands).run st =
    (if s.operandsFirst st e then operands >>= s.replace else s.replace e >>= again).run st := rfl
  rw [hchoice]
  split
  · exact hfirst st
  · exact hlast st

/-- The expression with replaced leaves below it. -/
theorem yields_substituteOperandsWith {again : Expr → StateM σ Expr} {e : Expr}
    (h : ∀ y ∈ (Subject.expr e).below, Yields (y.substituteWith s again) (y.mapLeaves f)) :
    ∃ e', .expr e' = (Subject.expr e).withBelow ((Subject.expr e).below.map (Subject.mapLeaves f)) ∧
      Yields (e.substituteOperandsWith s again) e' := by
  refine ⟨_, rfl, fun st => Subject.expr.inj ?_⟩
  have hoperands := (yields_mapM h).map (Subject.expr e).withBelow
  rw [← Subject.substituteOperandsWith_expr] at hoperands
  exact hoperands st

/-- A substitution of leaves yields the subject with its leaves mapped, if there is fuel for its nesting. -/
theorem OfLeaves.yields (hs : s.OfLeaves f) (hf : ∀ e, e.isLeaf → (f e).isLeaf) (x : Subject) {limit : Nat}
    (hlimit : x.nesting ≤ limit) : Yields (x.substituteWith s (Expr.substituteOperands s limit)) (x.mapLeaves f) := by
  induction x using Subject.inductionOn generalizing limit with
  | h x ih =>
    cases x with
    | plan p =>
      rw [Subject.substituteWith_plan, Subject.mapLeaves_of_none rfl]
      exact (yields_mapM fun y hy => ih y hy ((Subject.nesting_le hy).trans hlimit)).map _
    | expr e =>
      rw [Subject.substituteWith, substituteWith_eq]
      by_cases hleaf : e.isLeaf
      · have hreplace := hs.yields_replace e
        rw [if_pos hleaf] at hreplace
        rw [Subject.mapLeaves_of_some (Subject.leaf?_expr_of_isLeaf hleaf), substituteOperandsWith_of_isLeaf hleaf]
        refine (Yields.around hreplace (hreplace.bind ?_)).map _
        rw [substituteOperands_of_isLeaf (hf e hleaf)]
        exact fun _ => rfl
      · have hnone : (Subject.expr e).leaf? = none := if_neg hleaf
        obtain ⟨e', he', hoperands⟩ := yields_substituteOperandsWith fun y hy =>
          ih y hy ((Subject.nesting_lt hy).le.trans hlimit)
        have hnone' : (Subject.expr e').leaf? = none := he' ▸ Subject.leaf?_withBelow hnone _
        have hreplace := hs.yields_replace e
        have hreplace' := hs.yields_replace e'
        rw [if_neg hleaf] at hreplace
        rw [if_neg fun h => Option.some_ne_none _ ((if_pos h).symm.trans hnone')] at hreplace'
        rw [Subject.mapLeaves_of_none hnone, ← he']
        refine (Yields.around (hoperands.bind hreplace') (hreplace.bind ?_)).map _
        cases limit with
        | zero =>
          -- without any limit left there is nothing below
          have hbelow : (Subject.expr e).below = [] := List.eq_nil_iff_forall_not_mem.2 fun y hy =>
            absurd ((Subject.nesting_lt hy).trans_le hlimit) (Nat.not_lt_zero _)
          have hsame : (Subject.expr e).withBelow [] = .expr e := hbelow ▸ (Subject.expr e).withBelow_below
          rw [hbelow, List.map_nil, hsame] at he'
          rw [Subject.expr.inj he']
          exact fun _ => rfl
        | succ limit =>
          obtain ⟨e'', he'', hoperands⟩ := yields_substituteOperandsWith fun y hy =>
            ih y hy (Nat.le_of_lt_succ ((Subject.nesting_lt hy).trans_le hlimit))
          rw [Subject.expr.inj (he'.trans he''.symm)]
          exact hoperands

end Substitution

/-- A substitution that puts leaves in the place of leaves, and all other expressions back in their place, replaces all leaves
of a plan at once, whether it comes to an expression before its operands or behind them: the operands, the plans of subqueries
and the order of the leaves stay. A second such substitution afterwards does what one does that replaces the leaves twice. The
limit has to be as large as expressions with operands stand one inside the other. -/
theorem leaves_replaced_at_once {σ τ υ : Type} {f g : Expr → Expr} (hf : ∀ e, e.isLeaf → (f e).isLeaf)
    (hg : ∀ e, e.isLeaf → (g e).isLeaf) {s : Substitution σ} (hs : s.OfLeaves f) {s' : Substitution τ}
    (hs' : s'.OfLeaves g) {once : Substitution υ} (honce : once.OfLeaves (g ∘ f)) (p : Plan) {limit : Nat}
    (hlimit : (Subject.plan p).nesting ≤ limit) (st : σ) (st' : τ) (stOnce : υ) :
    .plan ((p.substitute s limit).run st).1 = (Subject.plan p).mapLeaves f ∧
      ((Subject.plan p).mapLeaves f).leaves = (Subject.plan p).leaves.map f ∧
      ((((p.substitute s limit).run st).1.substitute s' limit).run st').1 = ((p.substitute once limit).run stOnce).1 := by
  have hfirst : .plan ((p.substitute s limit).run st).1 = (Subject.plan p).mapLeaves f := hs.yields hf (.plan p) hlimit st
  refine ⟨hfirst, Subject.leaves_mapLeaves hf _, Subject.plan.inj ?_⟩
  have hnesting : (Subject.plan ((p.substitute s limit).run st).1).nesting ≤ limit := by
    rwa [hfirst, Subject.nesting_mapLeaves hf]
  calc
    Subject.plan ((((p.substitute s limit).run st).1.substitute s' limit).run st').1
      = (Subject.plan ((p.substitute s limit).run st).1).mapLeaves g := hs'.yields hg _ hnesting st'
    _ = (Subject.plan p).mapLeaves (g ∘ f) := by rw [hfirst, Subject.mapLeaves_mapLeaves hf]
    _ = .plan ((p.substitute once limit).run stOnce).1 :=
      (honce.yields (fun e he => hg _ (hf e he)) (.plan p) hlimit stOnce).symm

namespace ComparedSubquery

/-- Counts up the integers. -/
def next : Expr → Expr
  | .constant (.int i) type => .constant (.int (i + 1)) type
  | e => e

/-- Replaces leaves and counts its calls; an even number of calls so far lets the operands come first. -/
def alternating (f : Expr → Expr) : Substitution Nat where
  operandsFirst n _ := n % 2 == 0
  replace e := do
    modify (· + 1)
    return if e.isLeaf then f e else e

/-- The substitution that changes its mind about the order replaces leaves only. -/
theorem ofLeaves_alternating (f : Expr → Expr) : (alternating f).OfLeaves f := fun _ _ => rfl

/-- The next constant is a leaf. -/
theorem isLeaf_next (e : Expr) (h : e.isLeaf) : (next e).isLeaf := by
  cases e with
  | constant value type => cases value <;> rfl
  | parameter | column => rfl
  | _ => cases h

end ComparedSubquery

open ComparedSubquery in
/-- All constants are counted up, also those of the subquery, some before and some behind what they are operands of. -/
theorem leaves_replaced_of_alternating :
    (∀ e, e.isLeaf → (next e).isLeaf) ∧ (alternating next).OfLeaves next ∧
      (alternating (next ∘ next)).OfLeaves (next ∘ next) ∧ (Subject.plan plan).nesting ≤ 3 ∧
      ((plan.substitute (alternating next) 3).run 0).1 =
        .unary 2 .select (.values 1 [[.long 5]]) [.comparison ⟨⟨0⟩, .eq, .normal⟩ (.long 2)
          (.subquery .value (.values 3 [[.long 3, .cast (.long 4) ⟨.int, true⟩]]) none)] ∧
      ((((plan.substitute (alternating next) 3).run 0).1.substitute (alternating next) 3).run 1).1 =
        ((plan.substitute (alternating (next ∘ next)) 3).run 0).1 := by
  have hnesting : (Subject.plan plan).nesting ≤ 3 := by decide
  obtain ⟨hresult, -, htwice⟩ := leaves_replaced_at_once isLeaf_next isLeaf_next (ofLeaves_alternating next)
    (ofLeaves_alternating next) (ofLeaves_alternating (next ∘ next)) plan hnesting 0 1 0
  exact ⟨isLeaf_next, ofLeaves_alternating next, ofLeaves_alternating _, hnesting, Subject.plan.inj hresult, htwice⟩

end ClusterPlan
