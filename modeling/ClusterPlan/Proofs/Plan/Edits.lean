import ClusterPlan.Plan.Editing
import ClusterPlan.Plan.Search
import ClusterPlan.Proofs.Plan.Ownership

/-!
# Edits exchange plans

An edit puts plans in the place of what a node owns and hands back what was there. At the node itself the nodes that are handed
in and those that were there are exactly the nodes afterwards and those handed back (`Plan.Edit.perm`). A change at a place
inside of a plan or an expression exchanges the node that is found there for the changed one, and nothing else
(`Subject.exchanges`), so the same holds of an edit anywhere (`Subject.perm_of_edit?`).
-/

namespace ClusterPlan

/-! ## Edits of a node -/

/-- An edit of the plans that a node owns. -/
inductive Plan.Edit where
  | setInput (new : Plan)
  | setLeft (new : Plan)
  | setRight (new : Plan)
  | reverse
  | replaceInput (old : Int) (new : Plan)
  | setScan (scan : Plan)
  | addScan (scan : Plan)
  | takeScans

namespace Plan.Edit

/-- The plans that an edit is given. -/
def handedIn : Edit → List Plan
  | setInput new | setLeft new | setRight new | replaceInput _ new => [new]
  | setScan scan | addScan scan => [scan]
  | reverse | takeScans => []

/-- The node after an edit and the plans that are handed back; nothing for a node that has no such edit. A join that cannot be
reversed stays as it is, and a plan that is to replace what is no input comes back. -/
def perform? : Edit → Plan → Option (Plan × List Plan)
  | setInput new, p => (p.setInput? new).map fun r => (r.2, [r.1])
  | setLeft new, p => (p.setLeft? new).map fun r => (r.2, [r.1])
  | setRight new, p => (p.setRight? new).map fun r => (r.2, [r.1])
  | reverse, p => p.join?.map fun _ => (p.reverseJoin.toOption.getD p, [])
  | replaceInput old new, p =>
    match p.replaceInput? old new with
    | some r => some (r.2, [r.1])
    | none => some (p, [new])
  | setScan scan, .joinTree id group nodes conditions old =>
    some ((Plan.joinTree id group nodes conditions old).setTreeScan scan, old.toList)
  | addScan scan, .tableJoins id group input scans =>
    some ((Plan.tableJoins id group input scans).editScans (· ++ [scan]), [])
  | takeScans, .tableJoins id group input scans =>
    some ((Plan.tableJoins id group input scans).editScans fun _ => [], scans)
  | setScan _, _ | addScan _, _ | takeScans, _ => none

end Plan.Edit

/-! ## Parts in their context -/

/-- The nodes of some subjects are those of a part of them and those around it. -/
def Hosts (whole part : List Subject) (context : List Int) : Prop :=
  (Subject.idsOf whole).Perm (Subject.idsOf part ++ context)

/-- Some of a list of subjects hold their ids beside those of the others. -/
theorem hosts_append (before part after : List Subject) :
    Hosts (before ++ part ++ after) part (Subject.idsOf (before ++ after)) := by
  rw [Hosts, List.perm_iff_count]
  intro a
  simp only [Subject.idsOf_append, List.count_append]
  omega

/-- Some of the parts of a node or an expression, and what it owns besides. -/
theorem hosts_parts {x : Subject} (own : List Int) (before part after : List Subject) (hown : x.ownId = own)
    (hparts : x.parts = before ++ part ++ after) : Hosts [x] part (own ++ Subject.idsOf (before ++ after)) := by
  have hids := x.nodeIds_perm
  rw [hown, hparts] at hids
  have hsplit := (hosts_append before part after).append_left own
  rw [Hosts, List.perm_iff_count]
  intro a
  have hids := (hids.trans hsplit).count_eq a
  simp only [Subject.idsOf_cons, Subject.idsOf_nil, List.append_nil, List.count_append] at hids ⊢
  omega

/-- Two subjects in one another's place. -/
theorem perm_of_hosts {x x' : Subject} {old new : List Subject} {context : List Int} (h : Hosts [x] old context)
    (h' : Hosts [x'] new context) : (x'.nodeIds ++ Subject.idsOf old).Perm (x.nodeIds ++ Subject.idsOf new) := by
  rw [List.perm_iff_count]
  intro a
  have h := h.count_eq a
  have h' := h'.count_eq a
  simp only [Subject.idsOf_cons, Subject.idsOf_nil, List.append_nil, List.count_append] at h h' ⊢
  omega

/-- New parts in the place of old ones. -/
theorem perm_of_parts {p p' : Plan} (before old new after : List Subject) (hid : p'.id = p.id)
    (h : (Subject.plan p).parts = before ++ old ++ after) (h' : (Subject.plan p').parts = before ++ new ++ after) :
    (p'.nodeIds ++ Subject.idsOf old).Perm (p.nodeIds ++ Subject.idsOf new) := by
  have hold : Hosts [.plan p] old _ := hosts_parts [p.id] before old after rfl h
  have hnew : Hosts [.plan p'] new _ := hosts_parts [p.id] before new after (congrArg (fun i => [i]) hid) h'
  exact perm_of_hosts hold hnew

namespace Plan

variable {p p' new back : Plan}

/-- Setting the only input exchanges the ids of the old input for those of the new one. -/
theorem perm_of_setInput? (h : p.setInput? new = some (back, p')) :
    (p'.nodeIds ++ Subject.idsOf [.plan back]).Perm (p.nodeIds ++ Subject.idsOf [.plan new]) := by
  cases p with
  | unary id op input operands =>
    cases h
    exact perm_of_parts [] [.plan back] [.plan new] (operands.map .expr) rfl rfl rfl
  | aggregate id op phase input =>
    cases h
    exact perm_of_parts [] [.plan back] [.plan new] (phase.operands.map .expr) rfl rfl rfl
  | tableJoins id group input scans =>
    cases h
    exact perm_of_parts [] [.plan back] [.plan new] (scans.map .plan) rfl rfl rfl
  | binary id op left right operands =>
    cases op with
    | bloomFilterFilter filter =>
      cases h
      exact perm_of_parts [] [.plan back] [.plan new] (.plan right :: operands.map .expr) rfl rfl rfl
    | _ => cases h
  | _ => cases h

theorem perm_of_setLeft? (h : p.setLeft? new = some (back, p')) :
    (p'.nodeIds ++ Subject.idsOf [.plan back]).Perm (p.nodeIds ++ Subject.idsOf [.plan new]) := by
  cases p with
  | binary id op left right operands =>
    cases h
    exact perm_of_parts [] [.plan back] [.plan new] (.plan right :: operands.map .expr) rfl rfl rfl
  | _ => cases h

theorem perm_of_setRight? (h : p.setRight? new = some (back, p')) :
    (p'.nodeIds ++ Subject.idsOf [.plan back]).Perm (p.nodeIds ++ Subject.idsOf [.plan new]) := by
  cases p with
  | binary id op left right operands =>
    cases h
    exact perm_of_parts [.plan left] [.plan back] [.plan new] (operands.map .expr) rfl rfl rfl
  | _ => cases h

/-- Replacing an input exchanges its ids for those of the new one. -/
theorem perm_of_replaceInput? {old : Int} (h : p.replaceInput? old new = some (back, p')) :
    (p'.nodeIds ++ Subject.idsOf [.plan back]).Perm (p.nodeIds ++ Subject.idsOf [.plan new]) := by
  cases p with
  | unary id op input operands =>
    obtain ⟨-, h⟩ := Option.ite_none_right_eq_some.1 h
    exact perm_of_setInput? h
  | aggregate id op phase input =>
    obtain ⟨-, h⟩ := Option.ite_none_right_eq_some.1 h
    exact perm_of_setInput? h
  | tableJoins id group input scans =>
    obtain ⟨-, h⟩ := Option.ite_none_right_eq_some.1 h
    exact perm_of_setInput? h
  | binary id op left right operands =>
    rw [replaceInput?] at h
    split at h
    · exact perm_of_setLeft? h
    · obtain ⟨-, h⟩ := Option.ite_none_right_eq_some.1 h
      exact perm_of_setRight? h
  | joinTree id group nodes conditions scan =>
    cases scan with
    | none => cases h
    | some scan =>
      obtain ⟨-, h⟩ := Option.ite_none_right_eq_some.1 h
      cases h
      exact perm_of_parts [] [.plan back] [.plan new] (conditions.flatten.map .expr) rfl rfl rfl
  | _ => cases h

/-- The inputs of a reversed join change places. -/
theorem perm_of_reverseJoin (h : p.reverseJoin = .ok p') : p'.nodeIds.Perm p.nodeIds := by
  cases p with
  | binary id op left right operands =>
    cases op with
    | join op =>
      rw [reverseJoin] at h
      cases hkind : op.kind.reversed? with
      | none =>
        rw [hkind] at h
        cases h
      | some kind =>
        rw [hkind] at h
        cases h
        have hperm : ((binary id (.join { op with kind }) right left operands).nodeIds ++
            Subject.idsOf [.plan left, .plan right]).Perm
            ((binary id (.join op) left right operands).nodeIds ++ Subject.idsOf [.plan right, .plan left]) :=
          perm_of_parts [] [.plan left, .plan right] [.plan right, .plan left] (operands.map .expr) rfl rfl rfl
        have hswap : [Subject.plan right, .plan left].Perm [.plan left, .plan right] := .swap _ _ []
        exact (List.perm_append_right_iff _).1 (hperm.trans ((hswap.flatMap_right _).append_left _))
    | _ =>
      cases h
      exact .refl _
  | _ =>
    cases h
    exact .refl _

/-- An edit of a node neither loses nor duplicates nodes. -/
theorem Edit.perm {e : Edit} {p p' : Plan} {back : List Plan} (h : e.perform? p = some (p', back)) :
    (p'.nodeIds ++ Subject.idsOf (back.map .plan)).Perm (p.nodeIds ++ Subject.idsOf (e.handedIn.map .plan)) := by
  cases e with
  | setInput new =>
    obtain ⟨_, hset, heq⟩ := Option.map_eq_some_iff.1 h
    cases heq
    exact perm_of_setInput? hset
  | setLeft new =>
    obtain ⟨_, hset, heq⟩ := Option.map_eq_some_iff.1 h
    cases heq
    exact perm_of_setLeft? hset
  | setRight new =>
    obtain ⟨_, hset, heq⟩ := Option.map_eq_some_iff.1 h
    cases heq
    exact perm_of_setRight? hset
  | reverse =>
    obtain ⟨_, -, heq⟩ := Option.map_eq_some_iff.1 h
    cases heq
    refine List.Perm.append_right _ ?_
    cases hreversed : p.reverseJoin with
    | ok p' => exact perm_of_reverseJoin hreversed
    | error e => exact .refl _
  | replaceInput old new =>
    rw [Edit.perform?] at h
    split at h
    next r hr =>
      cases h
      exact perm_of_replaceInput? hr
    · cases h
      exact .refl _
  | setScan scan =>
    cases p with
    | joinTree id group nodes conditions old =>
      cases h
      exact perm_of_parts [] (old.toList.map .plan) [.plan scan] (conditions.flatten.map .expr) rfl rfl rfl
    | _ => cases h
  | addScan scan =>
    cases p with
    | tableJoins id group input scans =>
      cases h
      refine perm_of_parts (.plan input :: scans.map .plan) [] [.plan scan] [] rfl ?_ ?_
      · rw [List.append_nil, List.append_nil]
        rfl
      · rw [List.append_nil, List.cons_append, ← List.map_singleton, ← List.map_append]
        rfl
    | _ => cases h
  | takeScans =>
    cases p with
    | tableJoins id group input scans =>
      cases h
      exact perm_of_parts [.plan input] (back.map .plan) [] [] rfl (List.append_nil _).symm rfl
    | _ => cases h

end Plan

/-! ## Changes inside of plans -/

/-- What a change does that goes to a place in something: nothing if there is nothing at the place; else it exchanges the plan
that is found there for the changed one, and leaves the nodes around it. -/
def Exchanges (f : Plan → Plan) {α : Type} (subjects : α → List Subject) (x : α) (found : Option Plan)
    (changed : Option α) : Prop :=
  (found = none ∧ changed = none) ∨ ∃ p x' context, found = some p ∧ changed = some x' ∧
    Hosts (subjects x) [.plan p] context ∧ Hosts (subjects x') [.plan (f p)] context

section Exchanges

variable {f : Plan → Plan} {α β : Type} {subjects : α → List Subject} {whole : β → List Subject} {x : α}
  {found more : Option Plan} {changed other : Option α}

/-- Where the node is not found nothing is changed. -/
theorem Exchanges.nothing : Exchanges f subjects x none none := Or.inl ⟨rfl, rfl⟩

/-- A change at the first of two places that there is. -/
theorem Exchanges.or (h : Exchanges f subjects x found changed) (hmore : Exchanges f subjects x more other) :
    Exchanges f subjects x (found.or more) (changed.or other) := by
  rcases h with ⟨rfl, rfl⟩ | ⟨p, y, context, rfl, rfl, h⟩
  · exact hmore
  · exact Or.inr ⟨p, y, context, rfl, rfl, h⟩

/-- A change in a part. -/
theorem Exchanges.map (mk : α → β) (context : List Int) (h : Exchanges f subjects x found changed)
    (hmk : ∀ y, Hosts (whole (mk y)) (subjects y) context) : Exchanges f whole (mk x) found (changed.map mk) := by
  rcases h with ⟨rfl, rfl⟩ | ⟨p, y, inner, rfl, rfl, hx, hy⟩
  · exact .nothing
  · have hwhole (z : α) (q : Plan) (h : Hosts (subjects z) [.plan q] inner) :
        Hosts (whole (mk z)) [.plan q] (inner ++ context) := by
      have := (hmk z).trans (h.append_right context)
      rwa [List.append_assoc] at this
    exact Or.inr ⟨p, mk y, inner ++ context, rfl, rfl, hwhole x p hx, hwhole y (f p) hy⟩

/-- A change in some of the parts of a node or an expression. -/
theorem Exchanges.within {g : β → Subject} (mk : α → β) (own : List Int) (before after : List Subject)
    (h : Exchanges f subjects x found changed) (hown : ∀ y, (g (mk y)).ownId = own)
    (hparts : ∀ y, (g (mk y)).parts = before ++ subjects y ++ after) :
    Exchanges f (fun z => [g z]) (mk x) found (changed.map mk) :=
  h.map mk _ fun y => hosts_parts own before (subjects y) after (hown y) (hparts y)

/-- A change among other subjects. -/
theorem Exchanges.among (mk : α → β) (before after : List Subject) (h : Exchanges f subjects x found changed)
    (hmk : ∀ y, whole (mk y) = before ++ subjects y ++ after) : Exchanges f whole (mk x) found (changed.map mk) :=
  h.map mk _ fun y => hmk y ▸ hosts_append before (subjects y) after

/-- A change of the node itself, if it has the id. -/
theorem Exchanges.self {id : Int} {p : Plan} {changed : Option Plan} (h : Exchanges f (fun p => [.plan p]) p found changed) :
    Exchanges f (fun p => [.plan p]) p (if p.id = id then some p else found) (if p.id = id then some (f p) else changed) := by
  split
  · refine Or.inr ⟨p, f p, [], rfl, rfl, ?_, ?_⟩ <;> exact .of_eq (List.append_nil _).symm
  · exact h

end Exchanges

mutual

variable (id : Int) (f : Plan → Plan)

/-- Changing a node in the subqueries of an expression. -/
theorem Expr.exchanges : ∀ e : Expr, Exchanges f (fun e => [.expr e]) e (e.findPlan? id) (e.modifyPlan? id f)
  | .constant _ _ | .parameter _ _ | .column _ | .aggregate _ none => .nothing
  | .cast operand type =>
    .within (fun y => Expr.cast y type) [] [] [] operand.exchanges (fun _ => rfl) fun _ => rfl
  | .call h operands =>
    .within (Expr.call h) [] [] [] (Expr.exchangesIn operands) (fun _ => rfl) fun _ => (List.append_nil _).symm
  | .logical op operands =>
    .within (Expr.logical op) [] [] [] (Expr.exchangesIn operands) (fun _ => rfl) fun _ => (List.append_nil _).symm
  | .special h operands =>
    .within (Expr.special h) [] [] [] (Expr.exchangesIn operands) (fun _ => rfl) fun _ => (List.append_nil _).symm
  | .aggregate h (some operand) =>
    .within (Expr.aggregate h ∘ some) [] [] [] operand.exchanges (fun _ => rfl) fun _ => rfl
  | .comparison c left right =>
    .or (.within (Expr.comparison c · right) [] [] [.expr right] left.exchanges (fun _ => rfl) fun _ => rfl)
      (.within (Expr.comparison c left) [] [.expr left] [] right.exchanges (fun _ => rfl) fun _ => rfl)
  | .inList operand list =>
    .or (.within (Expr.inList · list) [] [] (list.map .expr) operand.exchanges (fun _ => rfl) fun _ => rfl)
      (.within (Expr.inList operand) [] [.expr operand] [] (Expr.exchangesIn list) (fun _ => rfl) fun _ =>
        (List.append_nil _).symm)
  | .subquery kind plan type =>
    .within (Expr.subquery kind · type) [] [] [] plan.exchanges (fun _ => rfl) fun _ => rfl

/-- Changing a node in the subqueries of expressions. -/
theorem Expr.exchangesIn : ∀ es : List Expr,
    Exchanges f (fun es => es.map .expr) es (Expr.findPlanIn? id es) (Expr.modifyPlanIn? id f es)
  | [] => .nothing
  | e :: es =>
    .or (.among (· :: es) [] (es.map .expr) e.exchanges fun _ => rfl)
      (.among (e :: ·) [.expr e] [] (Expr.exchangesIn es) fun _ => (List.append_nil _).symm)

/-- What is found in lists of expressions is what is changed there. -/
theorem Expr.exchangesInRows : ∀ rows : List (List Expr),
    Exchanges f (fun rows => rows.flatten.map .expr) rows (Expr.findPlanInRows? id rows) (Expr.modifyPlanInRows? id f rows)
  | [] => .nothing
  | row :: rows =>
    .or (.among (· :: rows) [] (rows.flatten.map .expr) (Expr.exchangesIn row) fun _ => List.map_append)
      (.among (row :: ·) (row.map .expr) [] (Expr.exchangesInRows rows) fun _ => by
        rw [List.append_nil, List.flatten_cons, List.map_append])

/-- What is found in a bound is what is changed there. -/
theorem Expr.exchangesInBound : ∀ bound : Option (Bound Expr),
    Exchanges f (fun bound => (bound.map (·.comparand)).toList.map .expr) bound (Expr.findPlanInBound? id bound)
      (Expr.modifyPlanInBound? id f bound)
  | none => .nothing
  | some ⟨e, inclusive⟩ => .among (fun e => some (Bound.mk e inclusive)) [] [] e.exchanges fun _ => rfl

/-- Changing a node in the comparands of a scan. -/
theorem Scan.exchanges : ∀ s : Scan, Exchanges f (fun s => [.plan (.indexScan s)]) s (s.findPlan? id) (s.modifyPlan? id f)
  | .single head ⟨index, withUnions, ascending, ordering, equality, unions, low, high⟩ => by
    let make equality unions low high : Scan :=
      .single head ⟨index, withUnions, ascending, ordering, equality, unions, low, high⟩
    have hparts (es rows low high) : (Subject.plan (.indexScan (make es rows low high))).parts =
        ordering.map .expr ++ (es.map .expr ++ (rows.flatten.map .expr ++
          ((low.map (·.comparand)).toList.map .expr ++ (high.map (·.comparand)).toList.map .expr))) := by
      simp [make, Subject.parts, Scan.parts, SingleScan.comparands]
    refine .or ?_ (.or ?_ (.or ?_ ?_))
    · exact .within (make · unions low high) [head.id] _ _ (Expr.exchangesIn equality) (fun _ => rfl) fun es => by
        rw [hparts, ← List.append_assoc]
    · exact .within (make equality · low high) [head.id] _ _ (Expr.exchangesInRows unions) (fun _ => rfl) fun rows => by
        rw [hparts, ← List.append_assoc, ← List.append_assoc]
    · exact .within (make equality unions · high) [head.id] _ _ (Expr.exchangesInBound low) (fun _ => rfl) fun low => by
        rw [hparts, ← List.append_assoc, ← List.append_assoc, ← List.append_assoc]
    · exact .within (make equality unions low ·) [head.id] _ [] (Expr.exchangesInBound high) (fun _ => rfl) fun high => by
        rw [hparts, List.append_nil, ← List.append_assoc, ← List.append_assoc, ← List.append_assoc]
  | .intersect head n output selector =>
    .or (.within (Scan.intersect head n · selector) [head.id] [] [.plan (.indexScan selector)] output.exchanges (fun _ => rfl)
        fun _ => rfl)
      (.within (Scan.intersect head n output) [head.id] [.plan (.indexScan output)] [] selector.exchanges (fun _ => rfl)
        fun _ => rfl)

/-- Changing a node of a plan. -/
theorem Plan.exchanges : ∀ p : Plan, Exchanges f (fun p => [.plan p]) p (p.find? id) (p.modify? id f)
  | .leaf i op => .self .nothing
  | .probe i op operands =>
    .self (.within (Plan.probe i op) [i] [] [] (Expr.exchangesIn operands) (fun _ => rfl) fun _ => (List.append_nil _).symm)
  | .values i rows =>
    .self (.within (Plan.values i) [i] [] [] (Expr.exchangesInRows rows) (fun _ => rfl) fun _ => (List.append_nil _).symm)
  | .unary i op input operands =>
    -- The parts that stay are named before and behind the part that is searched.
    .self (.or
      (.within (Plan.unary i op · operands) [i] [] (operands.map .expr) input.exchanges (fun _ => rfl) fun _ => rfl)
      (.within (Plan.unary i op input) [i] [.plan input] [] (Expr.exchangesIn operands) (fun _ => rfl) fun _ =>
        (List.append_nil _).symm))
  | .binary i op left right operands =>
    .self (.or
      (.within (Plan.binary i op · right operands) [i] [] (.plan right :: operands.map .expr) left.exchanges (fun _ => rfl)
        fun _ => rfl)
      (.or
        (.within (Plan.binary i op left · operands) [i] [.plan left] (operands.map .expr) right.exchanges (fun _ => rfl)
          fun _ => rfl)
        (.within (Plan.binary i op left right) [i] [.plan left, .plan right] [] (Expr.exchangesIn operands) (fun _ => rfl)
          fun _ => (List.append_nil _).symm)))
  | .aggregate i op (.bare groupBy) input =>
    .self (.or
      (.within (Plan.aggregate i op (.bare groupBy)) [i] [] (groupBy.map .expr) input.exchanges (fun _ => rfl) fun _ => rfl)
      (.within (fun es => Plan.aggregate i op (.bare es) input) [i] [.plan input] [] (Expr.exchangesIn groupBy) (fun _ => rfl)
        fun _ => (List.append_nil _).symm))
  | .aggregate i op (.resolved groupBy aggregates) input =>
    .self (.or
      (.within (Plan.aggregate i op (.resolved groupBy aggregates)) [i] [] ((groupBy ++ aggregates).map .expr) input.exchanges
        (fun _ => rfl) fun _ => rfl)
      (.or
        (.within (fun es => Plan.aggregate i op (.resolved es aggregates) input) [i] [.plan input] (aggregates.map .expr)
          (Expr.exchangesIn groupBy) (fun _ => rfl) fun _ => congrArg (_ :: ·) List.map_append)
        (.within (fun es => Plan.aggregate i op (.resolved groupBy es) input) [i] (.plan input :: groupBy.map .expr) []
          (Expr.exchangesIn aggregates) (fun _ => rfl) fun _ => by
            rw [List.append_nil]
            exact congrArg (_ :: ·) List.map_append)))
  | .aggregate i op (.split info) input =>
    .self (.or (.within (Plan.aggregate i op (.split info)) [i] [] [] input.exchanges (fun _ => rfl) fun _ => rfl) .nothing)
  | .tableJoins i group input scans =>
    .self (.within (Plan.tableJoins i group · scans) [i] [] (scans.map .plan) input.exchanges (fun _ => rfl) fun _ => rfl)
  | .joinTree i group nodes conditions none =>
    .self (.within (Plan.joinTree i group nodes · none) [i] [] [] (Expr.exchangesInRows conditions) (fun _ => rfl) fun _ =>
      (List.append_nil _).symm)
  | .joinTree i group nodes conditions (some scan) =>
    .self (.or
      (.within (Plan.joinTree i group nodes conditions ∘ some) [i] [] (conditions.flatten.map .expr) scan.exchanges
        (fun _ => rfl) fun _ => rfl)
      (.within (Plan.joinTree i group nodes · (some scan)) [i] [.plan scan] [] (Expr.exchangesInRows conditions)
        (fun _ => rfl) fun _ => (List.append_nil _).symm))
  | .indexScan s => .self (.map Plan.indexScan [] s.exchanges fun _ => .of_eq (List.append_nil _).symm)

end

/-! ## Edits anywhere -/

namespace Subject

/-- The first node of an id in a plan or an expression. -/
def find? (id : Int) : Subject → Option Plan
  | plan p => p.find? id
  | expr e => e.findPlan? id

/-- Changes the node that is found. -/
def modify? (id : Int) (f : Plan → Plan) : Subject → Option Subject
  | plan p => (p.modify? id f).map plan
  | expr e => (e.modifyPlan? id f).map expr

/-- An edit of the node that is found: what the plan or the expression is afterwards, and the plans that are handed back. -/
def edit? (site : Int) (e : Plan.Edit) (x : Subject) : Option (Subject × List Plan) := do
  let p ← x.find? site
  let (p', back) ← e.perform? p
  let x' ← x.modify? site fun _ => p'
  pure (x', back)

/-- What is found in a subject is what is changed there. -/
theorem exchanges (id : Int) (f : Plan → Plan) (x : Subject) :
    Exchanges f (fun x => [x]) x (x.find? id) (x.modify? id f) := by
  cases x with
  | plan p => exact .among plan [] [] (p.exchanges id f) fun _ => rfl
  | expr e => exact .among expr [] [] (e.exchanges id f) fun _ => rfl

variable {site : Int} {e : Plan.Edit} {x x' : Subject} {back : List Plan}

/-- An edit anywhere neither loses nor duplicates nodes. -/
theorem perm_of_edit? (h : x.edit? site e = some (x', back)) :
    (x'.nodeIds ++ idsOf (back.map plan)).Perm (x.nodeIds ++ idsOf (e.handedIn.map plan)) := by
  simp only [edit?, Option.bind_eq_bind, Option.bind_eq_some_iff, Option.pure_def, Option.some.injEq, Prod.mk.injEq,
    Prod.exists] at h
  obtain ⟨p, hfound, p', back, hedit, x', hchanged, rfl, rfl⟩ := h
  rcases x.exchanges site fun _ => p' with ⟨hnone, -⟩ | ⟨q, y, context, hq, hy, hbefore, hafter⟩
  · rw [hnone] at hfound
    cases hfound
  · -- the node that the change exchanges is the one that was edited
    cases hfound.symm.trans hq
    cases hchanged.symm.trans hy
    rw [List.perm_iff_count]
    intro a
    have hperm := (Plan.Edit.perm hedit).count_eq a
    have hbefore := hbefore.count_eq a
    have hafter := hafter.count_eq a
    simp only [idsOf_cons, idsOf_nil, List.append_nil, List.count_append, nodeIds] at hperm hbefore hafter ⊢
    omega

/-- An edit that a node has succeeds wherever the node is found. -/
theorem exists_edit? {p p' : Plan} (hp : x.find? site = some p) (hedit : e.perform? p = some (p', back)) :
    ∃ x', x.edit? site e = some (x', back) := by
  rcases x.exchanges site fun _ => p' with ⟨hnone, -⟩ | ⟨_, x', -, -, hchanged, -⟩
  · rw [hnone] at hp
    cases hp
  · refine ⟨x', ?_⟩
    simp only [edit?, hp, Option.bind_eq_bind, Option.bind_some, hedit, hchanged]
    rfl

end Subject

end ClusterPlan
