import ClusterPlan.Proofs.Plan.Nodes
import Mathlib.Data.List.SplitLengths
import Mathlib.Data.Set.List

/-!
# Other plans and expressions in the places below

What lies directly below a plan node or an expression can be exchanged for other plans and expressions, one for each place,
and all else that it holds stays (`Plan.refill`, `Expr.refill`, both as `Subject.withBelow`). Three laws say so: what is put
in is what lies below afterwards (`below_withBelow`), only what was put in last counts (`withBelow_withBelow`), and a subject
with its own parts put back is as it was (`withBelow_below`).
-/

namespace ClusterPlan

/-! ## Rows -/

section Rows

variable {α : Type}

/-- Only as many elements are split as the lengths ask for. -/
theorem splitLengths_append {lengths : List Nat} {xs : List α} (h : lengths.sum ≤ xs.length) (more : List α) :
    lengths.splitLengths (xs ++ more) = lengths.splitLengths xs := by
  induction lengths generalizing xs with
  | nil => rfl
  | cons n lengths ih =>
    rw [List.sum_cons] at h
    have hdrop : lengths.sum ≤ (xs.drop n).length := by rw [List.length_drop]; omega
    rw [List.splitLengths_cons, List.splitLengths_cons, List.take_append_of_le_length (by omega),
      List.drop_append_of_le_length (by omega), ih hdrop]

/-- Lists that were joined are split by their lengths again. -/
theorem splitLengths_flatten (rows : List (List α)) : (rows.map List.length).splitLengths rows.flatten = rows := by
  induction rows with
  | nil => rfl
  | cons row rows ih =>
    rw [List.map_cons, List.flatten_cons, List.splitLengths_cons, List.take_left, List.drop_left, ih]

end Rows

/-! ## Comparands -/

/-- Puts another comparand into a bound. -/
def Bound.withComparand {ε : Type} (b : Bound ε) (es : List ε) : Bound ε := { b with comparand := es.headD b.comparand }

/-- A bound has one comparand. -/
theorem length_comparand_toList (b : Option (Bound Expr)) : (b.map (·.comparand)).toList.length = b.toList.length := by
  cases b <;> rfl

/-- A bound with its own comparand is what it was. -/
theorem map_withComparand_self (b : Option (Bound Expr)) : b.map (·.withComparand (b.map (·.comparand)).toList) = b := by
  cases b <;> rfl

namespace SingleScan

/-- Puts other expressions in the place of the comparands of a scan. -/
def withComparands (s : SingleScan Expr) (es : List Expr) : SingleScan Expr :=
  let behindEquality := es.drop s.equality.length
  let behindUnions := behindEquality.drop s.unions.flatten.length
  { s with
    equality := es.take s.equality.length
    unions := (s.unions.map List.length).splitLengths behindEquality
    low := s.low.map (·.withComparand behindUnions)
    high := s.high.map (·.withComparand (behindUnions.drop s.low.toList.length)) }

variable {s : SingleScan Expr} {es fs equality unions low high : List Expr}

/-- Expressions in the place of all comparands are split into those of the four kinds. -/
theorem exists_split (h : es.length = s.comparands.length) :
    ∃ equality unions low high : List Expr, es = equality ++ (unions ++ (low ++ high)) ∧
      equality.length = s.equality.length ∧ unions.length = s.unions.flatten.length ∧ low.length = s.low.toList.length ∧
      high.length = s.high.toList.length := by
  rw [comparands, List.length_append, List.length_append, List.length_append, length_comparand_toList,
    length_comparand_toList] at h
  let behindUnions := (es.drop s.equality.length).drop s.unions.flatten.length
  refine ⟨es.take s.equality.length, (es.drop s.equality.length).take s.unions.flatten.length,
    behindUnions.take s.low.toList.length, behindUnions.drop s.low.toList.length, ?_, ?_, ?_, ?_, ?_⟩
  · rw [List.take_append_drop, List.take_append_drop, List.take_append_drop]
  all_goals simp only [behindUnions, List.length_take, List.length_drop]
  all_goals omega

/-- Comparands are dealt out to the equality, the unions and the bounds in turn. -/
theorem withComparands_append (hequality : equality.length = s.equality.length)
    (hunions : unions.length = s.unions.flatten.length) (hlow : low.length = s.low.toList.length) :
    s.withComparands (equality ++ (unions ++ (low ++ high))) =
      { s with
        equality
        unions := (s.unions.map List.length).splitLengths unions
        low := s.low.map (·.withComparand low)
        high := s.high.map (·.withComparand high) } := by
  have hrows : (s.unions.map List.length).sum ≤ unions.length := by rw [hunions, List.length_flatten]
  have hbound : s.low.map (·.withComparand (low ++ high)) = s.low.map (·.withComparand low) := by
    cases hs : s.low with
    | none => rfl
    | some b =>
      rw [hs] at hlow
      obtain ⟨e, rfl⟩ := List.length_eq_one_iff.1 hlow
      rfl
  simp only [withComparands, List.take_left' hequality, List.drop_left' hequality, List.drop_left' hunions,
    List.drop_left' hlow, splitLengths_append hrows, hbound]

/-- A bound with another comparand has this one. -/
theorem toList_map_withComparand {b : Option (Bound Expr)} (h : es.length = b.toList.length) :
    ((b.map (·.withComparand es)).map (·.comparand)).toList = es := by
  cases b with
  | none => exact (List.length_eq_zero_iff.1 h).symm
  | some b =>
    obtain ⟨e, rfl⟩ := List.length_eq_one_iff.1 h
    rfl

/-- A scan of one index with other comparands has these. -/
theorem comparands_withComparands (h : es.length = s.comparands.length) : (s.withComparands es).comparands = es := by
  obtain ⟨equality, unions, low, high, rfl, hequality, hunions, hlow, hhigh⟩ := exists_split h
  have hrows : unions.length ≤ (s.unions.map List.length).sum := by rw [hunions, List.length_flatten]
  rw [withComparands_append hequality hunions hlow, comparands, List.flatten_splitLengths _ _ hrows,
    toList_map_withComparand hlow, toList_map_withComparand hhigh, List.append_assoc, List.append_assoc]

/-- With its own comparands a scan of one index is what it was. -/
theorem withComparands_comparands (s : SingleScan Expr) : s.withComparands s.comparands = s := by
  rw [comparands, List.append_assoc, List.append_assoc, withComparands_append rfl rfl (length_comparand_toList _),
    splitLengths_flatten, map_withComparand_self, map_withComparand_self]

/-- The comparand that a bound is given last is the one that counts. -/
theorem map_withComparand_map {b : Option (Bound Expr)} (h : fs.length = b.toList.length) :
    (b.map (·.withComparand es)).map (·.withComparand fs) = b.map (·.withComparand fs) := by
  cases b with
  | none => rfl
  | some b =>
    obtain ⟨e, rfl⟩ := List.length_eq_one_iff.1 h
    rfl

/-- The comparands that a scan of one index is given last are those that count. -/
theorem withComparands_withComparands (hes : es.length = s.comparands.length) (hfs : fs.length = s.comparands.length) :
    (s.withComparands es).withComparands fs = s.withComparands fs := by
  obtain ⟨equality, unions, low, high, rfl, hequality, hunions, hlow, hhigh⟩ := exists_split hes
  obtain ⟨equality', unions', low', high', rfl, hequality', hunions', hlow', hhigh'⟩ := exists_split hfs
  have hsum : unions.length = (s.unions.map List.length).sum := by rw [hunions, List.length_flatten]
  have hlengths := List.map_splitLengths_length _ _ hsum.ge
  have hflat := List.flatten_splitLengths _ _ hsum.le
  rw [withComparands_append hequality hunions hlow, withComparands_append hequality' hunions' hlow',
    withComparands_append (hequality'.trans hequality.symm) (by rw [hflat, hunions', hunions])
      (by rw [hlow', Option.length_toList, Option.length_toList, Option.isSome_map])]
  simp only [hlengths, map_withComparand_map hlow', map_withComparand_map hhigh']

end SingleScan

namespace Scan

/-- Puts other expressions in the place of the comparands of a scan. -/
def withComparands : Scan → List Expr → Scan
  | single head s, es => single head (s.withComparands es)
  | intersect head n output selector, es =>
    intersect head n (output.withComparands (es.take output.comparands.length))
      (selector.withComparands (es.drop output.comparands.length))

variable {head : ScanHead} {n : Nat} {output selector : Scan} {es fs : List Expr}

/-- Expressions in the place of all comparands of an intersection are split into those of the two branches. -/
theorem exists_split (h : es.length = (intersect head n output selector).comparands.length) :
    ∃ fs gs, es = fs ++ gs ∧ fs.length = output.comparands.length ∧ gs.length = selector.comparands.length := by
  have hlength : es.length = output.comparands.length + selector.comparands.length := h.trans List.length_append
  refine ⟨es.take output.comparands.length, es.drop output.comparands.length, (List.take_append_drop _ _).symm, ?_, ?_⟩
  · rw [List.length_take]
    omega
  · rw [List.length_drop]
    omega

/-- Comparands are dealt out to both branches of an intersection in turn. -/
theorem withComparands_append (h : es.length = output.comparands.length) (fs : List Expr) :
    (intersect head n output selector).withComparands (es ++ fs) =
      intersect head n (output.withComparands es) (selector.withComparands fs) :=
  congrArg₂ (fun es fs => intersect head n (output.withComparands es) (selector.withComparands fs)) (List.take_left' h)
    (List.drop_left' h)

/-- A scan with other comparands has these. -/
theorem comparands_withComparands {s : Scan} (h : es.length = s.comparands.length) :
    (s.withComparands es).comparands = es := by
  induction s using Scan.inductionOn generalizing es with
  | single head s => exact SingleScan.comparands_withComparands h
  | intersect head n output selector houtput hselector =>
    obtain ⟨es, fs, rfl, hes, hfs⟩ := exists_split h
    rw [withComparands_append hes]
    exact congrArg₂ List.append (houtput hes) (hselector hfs)

/-- With its own comparands a scan is what it was. -/
theorem withComparands_comparands (s : Scan) : s.withComparands s.comparands = s := by
  induction s using Scan.inductionOn with
  | single head s => exact congrArg (single head) s.withComparands_comparands
  | intersect head n output selector houtput hselector =>
    exact (withComparands_append rfl _).trans (congrArg₂ (intersect head n) houtput hselector)

/-- The comparands that a scan is given last are those that count. -/
theorem withComparands_withComparands {s : Scan} (hes : es.length = s.comparands.length)
    (hfs : fs.length = s.comparands.length) : (s.withComparands es).withComparands fs = s.withComparands fs := by
  induction s using Scan.inductionOn generalizing es fs with
  | single head s => exact congrArg (single head) (SingleScan.withComparands_withComparands hes hfs)
  | intersect head n output selector houtput hselector =>
    obtain ⟨es, es', rfl, hes, hes'⟩ := exists_split hes
    obtain ⟨fs, fs', rfl, hfs, hfs'⟩ := exists_split hfs
    rw [withComparands_append hes, withComparands_append hfs,
      withComparands_append (by rw [comparands_withComparands hes, hfs, hes]), houtput hes hfs, hselector hes' hfs']

end Scan

/-! ## Operands -/

/-- Puts other expressions in the place of the operands. -/
def AggregatePhase.withOperands {ε : Type} : AggregatePhase ε → List ε → AggregatePhase ε
  | bare _, es => bare es
  | resolved groupBy _, es => resolved (es.take groupBy.length) (es.drop groupBy.length)
  | split info, _ => split info

/-- With its own operands a phase is what it was. -/
theorem AggregatePhase.withOperands_operands {ε : Type} (phase : AggregatePhase ε) :
    phase.withOperands phase.operands = phase := by
  cases phase with
  | bare | split => rfl
  | resolved => exact congrArg₂ resolved List.take_left List.drop_left

/-- Puts other plans in the place of the inputs of a node and other expressions in the place of its operands. -/
def Plan.refill (inputs : List Plan) (es : List Expr) : Plan → Plan
  | leaf id op => leaf id op
  | probe id op _ => probe id op es
  | values id rows => values id ((rows.map List.length).splitLengths es)
  | unary id op input _ => unary id op (inputs.getD 0 input) es
  | binary id op left right _ => binary id op (inputs.getD 0 left) (inputs.getD 1 right) es
  | aggregate id op phase input => aggregate id op (phase.withOperands es) (inputs.getD 0 input)
  | tableJoins id group input scans => tableJoins id group (inputs.getD 0 input) scans
  | joinTree id group nodes conditions scan =>
    joinTree id group nodes ((conditions.map List.length).splitLengths es) (scan.map (inputs.getD 0))
  | indexScan s => indexScan (s.withComparands es)

/-- Puts another plan in the place of that of a subquery, or other expressions in the place of the operands. -/
def Expr.refill (plans : List Plan) (es : List Expr) : Expr → Expr
  | cast operand type => cast (es.getD 0 operand) type
  | call f _ => call f es
  | aggregate f operand => aggregate f (operand.map (es.getD 0))
  | comparison c left right => comparison c (es.getD 0 left) (es.getD 1 right)
  | logical op _ => logical op es
  | inList operand _ => inList (es.getD 0 operand) (es.drop 1)
  | subquery kind plan type => subquery kind (plans.getD 0 plan) type
  | special f _ => special f es
  | e => e

namespace Plan

variable {p : Plan} {inputs inputs' : List Plan} {es es' : List Expr}

/-- A node with other inputs and operands keeps its id. -/
@[simp]
theorem id_refill (inputs : List Plan) (es : List Expr) (p : Plan) : (p.refill inputs es).id = p.id := by
  cases p with
  | indexScan s => cases s <;> rfl
  | _ => rfl

/-- A node with other inputs has these. -/
theorem children_refill (h : inputs.length = p.children.length) : (p.refill inputs es).children = inputs := by
  cases p with
  | leaf | probe | values | indexScan => exact (List.length_eq_zero_iff.1 h).symm
  | unary | aggregate | tableJoins =>
    obtain ⟨q, rfl⟩ := List.length_eq_one_iff.1 h
    rfl
  | binary =>
    obtain ⟨q, r, rfl⟩ := List.length_eq_two.1 h
    rfl
  | joinTree id group nodes conditions scan =>
    cases scan with
    | none => exact (List.length_eq_zero_iff.1 h).symm
    | some scan =>
      obtain ⟨q, rfl⟩ := List.length_eq_one_iff.1 h
      rfl

/-- A node with other operands has these. -/
theorem exprs_refill (h : es.length = p.exprs.length) : (p.refill inputs es).exprs = es := by
  cases p with
  | leaf | tableJoins => exact (List.length_eq_zero_iff.1 h).symm
  | probe | unary | binary => rfl
  | values | joinTree =>
    have hlength := h.trans List.length_flatten
    exact List.flatten_splitLengths _ _ hlength.le
  | aggregate id op phase input =>
    cases phase with
    | bare => rfl
    | resolved => exact List.take_append_drop _ _
    | split => exact (List.length_eq_zero_iff.1 h).symm
  | indexScan s => exact Scan.comparands_withComparands h

/-- With its own inputs and operands a node is what it was. -/
theorem refill_self (p : Plan) : p.refill p.children p.exprs = p := by
  cases p with
  | leaf | probe | unary | binary | tableJoins => rfl
  | values id rows => exact congrArg (values id) (splitLengths_flatten rows)
  | joinTree id group nodes conditions scan =>
    cases scan <;> exact congrArg (joinTree id group nodes · _) (splitLengths_flatten conditions)
  | aggregate id op phase input => exact congrArg (aggregate id op · input) phase.withOperands_operands
  | indexScan s => exact congrArg indexScan s.withComparands_comparands

/-- The inputs and operands that a node is given last are those that count. -/
theorem refill_refill (hinputs : inputs.length = p.children.length) (hes : es.length = p.exprs.length)
    (hinputs' : inputs'.length = p.children.length) (hes' : es'.length = p.exprs.length) :
    (p.refill inputs es).refill inputs' es' = p.refill inputs' es' := by
  have hrows {rows : List (List Expr)} (h : es.length = rows.flatten.length) :
      ((rows.map List.length).splitLengths es).map List.length = rows.map List.length := by
    rw [List.length_flatten] at h
    exact List.map_splitLengths_length _ _ h.ge
  cases p with
  | leaf | probe => rfl
  | values id rows => exact congrArg (values id ·) (congrArg (List.splitLengths · es') (hrows hes))
  | unary | tableJoins =>
    obtain ⟨q, rfl⟩ := List.length_eq_one_iff.1 hinputs'
    rfl
  | binary =>
    obtain ⟨q, r, rfl⟩ := List.length_eq_two.1 hinputs'
    rfl
  | aggregate id op phase input =>
    obtain ⟨q, rfl⟩ := List.length_eq_one_iff.1 hinputs'
    cases phase with
    | bare | split => rfl
    | resolved groupBy aggregates =>
      have hlength : es.length = groupBy.length + aggregates.length := hes.trans List.length_append
      have htake : (es.take groupBy.length).length = groupBy.length := by rw [List.length_take]; omega
      exact congrArg (fun n => aggregate id op (.resolved (es'.take n) (es'.drop n)) q) htake
  | joinTree id group nodes conditions scan =>
    have hconditions := congrArg (List.splitLengths · es') (hrows hes)
    cases scan with
    | none => exact congrArg (joinTree id group nodes · none) hconditions
    | some scan =>
      obtain ⟨q, rfl⟩ := List.length_eq_one_iff.1 hinputs'
      exact congrArg (joinTree id group nodes · (some q)) hconditions
  | indexScan s => exact congrArg indexScan (Scan.withComparands_withComparands hes hes')

end Plan

namespace Expr

/-- The plan of a subquery. -/
def ownPlan? : Expr → Option Plan
  | subquery _ plan _ => some plan
  | _ => none

variable {e : Expr} {ps ps' : List Plan} {es es' : List Expr}

/-- A subquery with another plan has this one. -/
theorem ownPlan?_refill (h : ps.length = e.ownPlan?.toList.length) : (e.refill ps es).ownPlan?.toList = ps := by
  cases e with
  | subquery =>
    obtain ⟨q, rfl⟩ := List.length_eq_one_iff.1 h
    rfl
  | _ => exact (List.length_eq_zero_iff.1 h).symm

/-- An expression with other operands has these. -/
theorem children_refill (h : es.length = e.children.length) : (e.refill ps es).children = es := by
  cases e with
  | constant | parameter | column | subquery => exact (List.length_eq_zero_iff.1 h).symm
  | cast =>
    obtain ⟨o, rfl⟩ := List.length_eq_one_iff.1 h
    rfl
  | call | logical | special => rfl
  | aggregate f operand =>
    cases operand with
    | none => exact (List.length_eq_zero_iff.1 h).symm
    | some operand =>
      obtain ⟨o, rfl⟩ := List.length_eq_one_iff.1 h
      rfl
  | comparison =>
    obtain ⟨l, r, rfl⟩ := List.length_eq_two.1 h
    rfl
  | inList =>
    obtain ⟨o, list, rfl⟩ := List.exists_cons_of_length_eq_add_one h
    rfl

/-- With its own plan and operands an expression is what it was. -/
theorem refill_self (e : Expr) : e.refill e.ownPlan?.toList e.children = e := by
  cases e with
  | aggregate f operand => cases operand <;> rfl
  | _ => rfl

/-- The plan and the operands that an expression is given last are those that count. -/
theorem refill_refill (hps' : ps'.length = e.ownPlan?.toList.length) (hes' : es'.length = e.children.length) :
    (e.refill ps es).refill ps' es' = e.refill ps' es' := by
  cases e with
  | constant | parameter | column | call | logical | special => rfl
  | subquery =>
    obtain ⟨q, rfl⟩ := List.length_eq_one_iff.1 hps'
    rfl
  | cast =>
    obtain ⟨o, rfl⟩ := List.length_eq_one_iff.1 hes'
    rfl
  | aggregate f operand =>
    cases operand with
    | none => rfl
    | some operand =>
      obtain ⟨o, rfl⟩ := List.length_eq_one_iff.1 hes'
      rfl
  | comparison =>
    obtain ⟨l, r, rfl⟩ := List.length_eq_two.1 hes'
    rfl
  | inList =>
    obtain ⟨o, list, rfl⟩ := List.exists_cons_of_length_eq_add_one hes'
    rfl

end Expr

namespace Subject

def isPlan : Subject → Bool
  | plan _ => true
  | expr _ => false

/-- The plans that lie directly below, which come before the expressions. -/
def lowerPlans : Subject → List Plan
  | plan p => p.children
  | expr e => e.ownPlan?.toList

/-- The expressions that lie directly below. -/
def lowerExprs : Subject → List Expr
  | plan p => p.exprs
  | expr e => e.children

/-- Below a subject there are plans first and expressions after them. -/
theorem below_eq (x : Subject) : x.below = x.lowerPlans.map plan ++ x.lowerExprs.map expr := by
  rcases x with p | e
  · rfl
  · cases e <;> rfl

/-- Puts other plans and expressions in the place of those that lie directly below. -/
def refill (ps : List Plan) (es : List Expr) : Subject → Subject
  | plan p => plan (p.refill ps es)
  | expr e => expr (e.refill ps es)

/-- Puts other subjects in the place of those that lie directly below, the plans and the expressions each in their order. -/
def withBelow (x : Subject) (ys : List Subject) : Subject := x.refill (ys.filterMap plan?) (ys.filterMap expr?)

/-- Plans stand where plans lie below a subject, and expressions where expressions do. -/
def Fits (x : Subject) (ys : List Subject) : Prop := ys.map isPlan = x.below.map isPlan

variable {x : Subject} {ys zs : List Subject}

/-- The plans among plans and expressions are the plans. -/
theorem filterMap_plan? (ps : List Plan) (es : List Expr) : (ps.map plan ++ es.map expr).filterMap plan? = ps := by
  have hps : ps.filterMap (plan? ∘ plan) = ps := List.filterMap_some
  have hes : es.filterMap (plan? ∘ expr) = [] := List.filterMap_eq_nil_iff.2 fun _ _ => rfl
  rw [List.filterMap_append, List.filterMap_map, List.filterMap_map, hps, hes, List.append_nil]

/-- The expressions among plans and expressions are the expressions. -/
theorem filterMap_expr? (ps : List Plan) (es : List Expr) : (ps.map plan ++ es.map expr).filterMap expr? = es := by
  have hps : ps.filterMap (expr? ∘ plan) = [] := List.filterMap_eq_nil_iff.2 fun _ _ => rfl
  have hes : es.filterMap (expr? ∘ expr) = es := List.filterMap_some
  rw [List.filterMap_append, List.filterMap_map, List.filterMap_map, hps, hes, List.nil_append]

/-- Putting other things below a subject makes no plan an expression and no expression a plan. -/
theorem isPlan_withBelow (x : Subject) (ys : List Subject) : (x.withBelow ys).isPlan = x.isPlan := by cases x <;> rfl

/-- Plans and expressions are put below a subject as its inputs and operands. -/
theorem withBelow_append (x : Subject) (ps : List Plan) (es : List Expr) :
    x.withBelow (ps.map plan ++ es.map expr) = x.refill ps es := by
  rw [withBelow, filterMap_plan?, filterMap_expr?]

/-- What fits are plans and then expressions, as many of each as lie below. -/
theorem Fits.exists_eq (h : x.Fits ys) : ∃ ps : List Plan, ∃ es : List Expr, ys = ps.map plan ++ es.map expr ∧
    ps.length = x.lowerPlans.length ∧ es.length = x.lowerExprs.length := by
  rw [Fits, below_eq, List.map_append, List.map_eq_append_iff] at h
  obtain ⟨xs, zs, rfl, hxs, hzs⟩ := h
  have hplans : xs ∈ Set.range (List.map plan) := by
    rw [Set.range_list_map]
    intro y hy
    obtain ⟨q, -, hkind⟩ := List.mem_map.1 (List.map_map ▸ hxs ▸ List.mem_map_of_mem hy)
    cases y with
    | plan p => exact ⟨p, rfl⟩
    | expr e => cases hkind
  have hexprs : zs ∈ Set.range (List.map expr) := by
    rw [Set.range_list_map]
    intro y hy
    obtain ⟨q, -, hkind⟩ := List.mem_map.1 (List.map_map ▸ hzs ▸ List.mem_map_of_mem hy)
    cases y with
    | plan p => cases hkind
    | expr e => exact ⟨e, rfl⟩
  obtain ⟨ps, rfl⟩ := hplans
  obtain ⟨es, rfl⟩ := hexprs
  refine ⟨ps, es, rfl, ?_, ?_⟩
  · simpa only [List.length_map] using congrArg List.length hxs
  · simpa only [List.length_map] using congrArg List.length hzs

/-- What fits below a subject, and was put there, lies there. -/
theorem below_withBelow (h : x.Fits ys) : (x.withBelow ys).below = ys := by
  obtain ⟨ps, es, rfl, hps, hes⟩ := h.exists_eq
  rw [withBelow_append, below_eq]
  rcases x with p | e
  · exact congrArg₂ (fun ps es => ps.map plan ++ es.map expr) (Plan.children_refill hps) (Plan.exprs_refill hes)
  · exact congrArg₂ (fun ps es => ps.map plan ++ es.map expr) (Expr.ownPlan?_refill hps) (Expr.children_refill hes)

/-- With what lies below it a subject is what it was. -/
theorem withBelow_below (x : Subject) : x.withBelow x.below = x := by
  rw [below_eq, withBelow_append]
  rcases x with p | e
  · exact congrArg plan p.refill_self
  · exact congrArg expr e.refill_self

/-- What is put below a subject last is what counts. -/
theorem withBelow_withBelow (hys : x.Fits ys) (hzs : x.Fits zs) : (x.withBelow ys).withBelow zs = x.withBelow zs := by
  obtain ⟨ps, es, rfl, hps, hes⟩ := hys.exists_eq
  obtain ⟨ps', es', rfl, hps', hes'⟩ := hzs.exists_eq
  rw [withBelow_append, withBelow_append, withBelow_append]
  rcases x with p | e
  · exact congrArg plan (Plan.refill_refill hps hes hps' hes')
  · exact congrArg expr (Expr.refill_refill hps' hes')

end Subject

end ClusterPlan
