import ClusterPlan.Proofs.Duplication.PlanCopy
import ClusterPlan.Proofs.Plan.Comparisons

/-!
# What a copy of a plan keeps

A copy of a plan is a sequence of calls of the session, one for each mention of the plan. So whatever the calls for its
mentions keep, the copy of the plan keeps (`Visits`). This needs nothing of the plan, not even that its nodes are different.
The answer is told as far as comparisons go: those of the copy are those of the plan in the same order, each with the copy of its
condition (`Plan.visits_copy`).
-/

namespace ClusterPlan

namespace Duplication

variable {kind : EntityKind} {s s' : Duplication} {α β : Type}

/-- The copies of conditions stay their copies in later states. -/
theorem Extends.copiesConditions (h : s.Extends s') {cs cs' : List ConditionId} (hcs : List.Forall₂ s.CopiesCondition cs cs') :
    List.Forall₂ s'.CopiesCondition cs cs' :=
  hcs.imp fun _ _ hc => h.copiesCondition hc

/-- A comparison of a copy: the same comparison with the copy of its condition. -/
def CopiesComparison (s : Duplication) (c c' : ComparisonHead) : Prop :=
  s.CopiesCondition c.id c'.id ∧ c' = { c with id := c'.id }

/-- The copy of a comparison stays its copy in later states. -/
theorem Extends.copiesComparison (h : s.Extends s') {c c' : ComparisonHead} (hc : s.CopiesComparison c c') :
    s'.CopiesComparison c c' :=
  ⟨h.copiesCondition hc.1, hc.2⟩

/-- The call for a mention keeps a property of the session. -/
def KeepsCall (I : Duplication → Prop) : Mention → Prop
  | .planNode id => Keeps I (copyNumber id) fun _ _ => True
  | .column id => Keeps I (nodeNumber id) fun _ _ => True
  | .condition c => Keeps I (condition c) fun s new => s.CopiesCondition c new
  | .entity ref => Keeps I (entity ref.1 ref.2) fun _ _ => True

/-- The call for a mention of an entity that there is keeps a session in order. -/
theorem keepsCall_inSession (s₀ : Duplication) {input : Context} (hin : input.Closed) {m : Mention}
    (hm : ∀ ref, m = .entity ref → input.Has ref.2) : KeepsCall (InSession s₀ input []) m := by
  cases m with
  | planNode id => exact fun s hs => (keeps_copyNumber id s hs).imp_right (And.imp_right fun _ => trivial)
  | column id => exact fun s hs => (keeps_nodeNumber id s hs).imp_right (And.imp_right fun _ => trivial)
  | condition c => exact keeps_condition c
  | entity ref => exact fun s hs => (keeps_entity hin (hm ref rfl) s hs).imp_right (And.imp_right fun _ => trivial)

/-- An action keeps what the calls for its mentions keep, and its answer is as told. -/
def Visits (ms : List Mention) (action : Copying α) (answer : Duplication → α → Prop) : Prop :=
  ∀ I : Duplication → Prop, (∀ m ∈ ms, KeepsCall I m) → Keeps I action answer

/-- An action that makes copies of some comparisons. -/
abbrev Compares (ms : List Mention) (cs : List ComparisonHead) (action : Copying α) (heads : α → List ComparisonHead) : Prop :=
  Visits ms action fun s x => List.Forall₂ s.CopiesComparison cs (heads x)

/-- An action that makes copies of no comparison. -/
abbrev Passes (ms : List Mention) (action : Copying α) : Prop := Compares ms [] action fun _ => []

namespace Visits

variable {ms ms' : List Mention} {cs : List ComparisonHead}

/-- An answer that is ready visits nothing. -/
protected theorem pure (x : α) : Visits [] (pure x) fun _ y => y = x :=
  fun _ _ => Keeps.pure x

/-- One action after the other. What is told of the first answer has to hold in later states as well. -/
theorem andThen {action : Copying α} {next : α → Copying β} {answer : Duplication → α → Prop}
    {answer' : α → Duplication → β → Prop} (h : Visits ms action answer)
    (hmono : ∀ s s' x, s.Extends s' → answer s x → answer s' x) (h' : ∀ x, Visits ms' (next x) (answer' x)) :
    Visits (ms ++ ms') (action >>= next) fun s y => ∃ x, answer s x ∧ answer' x s y :=
  fun I hI => (h I fun m hm => hI m (List.mem_append_left _ hm)).andThen hmono
    fun x => h' x I fun m hm => hI m (List.mem_append_right _ hm)

/-- One action after the other. Copies that the first one made are there after the second one. -/
protected theorem bind {action : Copying α} {next : α → Copying β} {heads : α → List ComparisonHead}
    {answer : α → Duplication → β → Prop} (h : Compares ms cs action heads) (h' : ∀ x, Visits ms' (next x) (answer x)) :
    Visits (ms ++ ms') (action >>= next) fun s y => ∃ x, List.Forall₂ s.CopiesComparison cs (heads x) ∧ answer x s y :=
  h.andThen (fun _ _ _ hext hheads => hheads.imp fun _ _ hc => hext.copiesComparison hc) h'

/-- The mentions can be written in another way, and less can be told of the answer. -/
theorem congr {action : Copying α} {answer answer' : Duplication → α → Prop} (h : Visits ms action answer) (hms : ms' = ms)
    (hanswer : ∀ s x, answer s x → answer' s x) : Visits ms' action answer' := by
  subst hms
  exact fun I hI => (h I hI).mono hanswer

/-- Nothing is told of an answer that holds no comparison. -/
theorem passes {action : Copying α} {answer : Duplication → α → Prop} (h : Visits ms action answer) (hms : ms' = ms) :
    Passes ms' action :=
  h.congr hms fun _ _ _ => .nil

/-- Passing by each element of a list passes by the list. -/
protected theorem mapM {f : α → Copying β} {mentions : α → List Mention} (h : ∀ x, Passes (mentions x) (f x)) (xs : List α) :
    Passes (xs.flatMap mentions) (xs.mapM f) := by
  induction xs with
  | nil =>
    rw [List.mapM_nil]
    exact (Visits.pure _).passes rfl
  | cons x xs ih =>
    rw [List.mapM_cons]
    refine ((h x).bind fun _ => ih.bind fun _ => Visits.pure _).passes ?_
    rw [List.flatMap_cons, List.append_nil]

/-- Passing by what there may be passes by the option. -/
protected theorem mapM_option {f : α → Copying β} {mentions : α → List Mention} (h : ∀ x, Passes (mentions x) (f x))
    (x : Option α) : Passes (x.toList.flatMap mentions) (x.mapM f) := by
  cases x with
  | none => exact (Visits.pure none).passes rfl
  | some x =>
    refine ((h x).bind fun _ => Visits.pure _).passes ?_
    rw [Option.toList_some, List.flatMap_singleton, List.append_nil]

/-! ## The calls of a session -/

/-- The call for an entity passes by its mention. -/
protected theorem entity (r : Ref kind) : Passes [.of r] (entity kind r) :=
  have h : Visits [.of r] (Duplication.entity kind r) fun _ _ => True := fun _ hI => hI (.of r) List.mem_cons_self
  h.passes rfl

/-- The calls for some entities pass by their mentions. -/
protected theorem entities (rs : List (Ref kind)) : Passes (rs.map .of) (rs.mapM (entity kind)) := by
  rw [List.map_eq_flatMap]
  exact Visits.mapM Visits.entity rs

/-- The call for an entity that there may be passes by its mention. -/
protected theorem entity_option (r : Option (Ref kind)) : Passes (r.toList.map .of) (r.mapM (entity kind)) := by
  rw [List.map_eq_flatMap]
  exact Visits.mapM_option Visits.entity r

/-- The call for the number of a referenced node passes by the column. -/
protected theorem nodeNumber (id : Int) : Passes [.column id] (nodeNumber id) :=
  have h : Visits [.column id] (Duplication.nodeNumber id) fun _ _ => True := fun _ hI => hI (.column id) List.mem_cons_self
  h.passes rfl

/-- The call for the number of a copied node passes by the node. -/
protected theorem copyNumber (id : Int) : Passes [.planNode id] (copyNumber id) :=
  have h : Visits [.planNode id] (Duplication.copyNumber id) fun _ _ => True := fun _ hI => hI (.planNode id) List.mem_cons_self
  h.passes rfl

/-- The call for a condition visits it and answers with its copy. -/
protected theorem condition (c : ConditionId) : Visits [.condition c] (condition c) fun s new => s.CopiesCondition c new :=
  fun _ hI => hI (.condition c) List.mem_cons_self

/-- The calls for some conditions pass by them. -/
protected theorem conditions (cs : List ConditionId) : Passes (cs.map .condition) (cs.mapM condition) := by
  rw [List.map_eq_flatMap]
  exact Visits.mapM (fun c => (Visits.condition c).passes rfl) cs

/-- The answers to a list of conditions are their copies. -/
theorem copiesConditions (cs : List ConditionId) : Visits (cs.map .condition) (cs.mapM condition) fun s cs' =>
    List.Forall₂ s.CopiesCondition cs cs' := by
  intro I hI
  exact Keeps.mapM (R := fun s c c' => s.CopiesCondition c c') (fun _ _ _ _ hext hc => hext.copiesCondition hc)
    fun c hc => hI (.condition c) (List.mem_map_of_mem hc)

/-- The call for the condition of a comparison makes the copy of the comparison. -/
protected theorem comparison (c : ComparisonHead) : Compares [.condition c.id] [c] (condition c.id) fun id => [{ c with id }] :=
  (Visits.condition c.id).congr rfl fun _ _ hc => .cons ⟨hc, rfl⟩ .nil

end Visits

end Duplication

open Duplication

/-! ## What nodes hold besides their inputs and operands -/

/-- Copying the source of a column passes by what it mentions. -/
theorem ColumnSource.visits_copy (c : ColumnSource) : Passes c.mentions c.copy := by
  cases c with
  | table s => exact ((Visits.entity s).bind fun _ => Visits.pure _).passes rfl
  | node id => exact ((Visits.nodeNumber id).bind fun _ => Visits.pure _).passes rfl

/-- Copying what a leaf reads passes by what it mentions. -/
theorem LeafOp.visits_copy (op : LeafOp) : Passes op.mentions op.copy := by
  cases op with
  | tableSource s => exact ((Visits.entity s).bind fun _ => Visits.pure _).passes rfl
  | groupScan g => exact ((Visits.entity g).bind fun _ => Visits.pure _).passes rfl
  | nothing => exact (Visits.pure _).passes rfl

/-- Copying an operation with one input passes by what it mentions. -/
theorem UnaryOp.visits_copy (op : UnaryOp) : Passes op.mentions op.copy := by
  cases op with
  | modify kind target => exact ((Visits.entity target).bind fun _ => Visits.pure _).passes rfl
  | flatten nodes tables kinds =>
    refine ((Visits.entities nodes).bind fun _ =>
      (Visits.mapM Visits.entity_option tables).bind fun _ => Visits.pure _).passes ?_
    rw [UnaryOp.mentions, List.append_nil]
  | ancestorLookup descendant ancestors tables =>
    refine ((Visits.entity descendant).bind fun _ => (Visits.entities ancestors).bind fun _ =>
      (Visits.entities tables).bind fun _ => Visits.pure _).passes ?_
    simp [UnaryOp.mentions]
  | branchLookup x ancestor branch tables =>
    refine ((Visits.entity x).bind fun _ => (Visits.entity ancestor).bind fun _ => (Visits.entity branch).bind fun _ =>
      (Visits.entities tables).bind fun _ => Visits.pure _).passes ?_
    simp [UnaryOp.mentions]
  | _ => exact (Visits.pure _).passes rfl

/-- Copying the head of a scan passes by what it mentions. -/
theorem ScanHead.visits_copy (h : ScanHead) : Passes h.mentions h.copy := by
  refine ((Visits.copyNumber h.id).bind fun _ => (Visits.entity h.rootMost).bind fun _ =>
    (Visits.entity h.leafMost).bind fun _ => (Visits.entities h.tables).bind fun _ =>
    (Visits.conditions h.conditions).bind fun _ => Visits.pure _).passes ?_
  simp [ScanHead.mentions]

/-! ## Expressions, scans and plans -/

/-- The nodes of a join tree that have no conditions. -/
theorem Expr.visits_copyJoinTree_nil (nodes : List JoinTreeNode) :
    Compares (nodes.map fun n => .of n.table) [] (Expr.copyJoinTree nodes []) fun r => Expr.comparisonsRows r.2 := by
  induction nodes with
  | nil =>
    rw [Expr.copyJoinTree, Expr.copyRows, pure_bind]
    exact (Visits.pure _).congr rfl fun s _ h => h ▸ .nil
  | cons n nodes ih =>
    rw [Expr.copyJoinTree]
    refine ((Visits.entity n.table).bind fun _ => ih.bind fun _ => Visits.pure _).congr ?_ ?_
    · simp
    · rintro s _ ⟨_, -, r, hr, rfl⟩
      exact hr

mutual

/-- Copying an expression copies its comparisons, those in subqueries included, in their order. -/
theorem Expr.visits_copy : ∀ e : Expr, Compares e.mentions e.comparisons e.copy Expr.comparisons
  | .constant _ _ | .parameter _ _ | .aggregate _ none => by
    rw [Expr.copy]
    refine (Visits.pure _).congr rfl ?_
    rintro s _ rfl
    exact .nil
  | .column c => by
    rw [Expr.copy]
    refine ((c.source.visits_copy).bind fun _ => Visits.pure _).congr ?_ ?_
    · rw [Expr.mentions, List.append_nil]
    · rintro s _ ⟨_, -, rfl⟩
      exact .nil
  | .cast e _ => by
    rw [Expr.copy]
    refine (e.visits_copy.bind fun _ => Visits.pure _).congr ?_ ?_
    · rw [Expr.mentions, List.append_nil]
    · rintro s _ ⟨_, he, rfl⟩
      exact he
  | .call _ es | .logical _ es | .special _ es => by
    rw [Expr.copy]
    refine ((Expr.visits_copyAll es).bind fun _ => Visits.pure _).congr ?_ ?_
    · rw [Expr.mentions, List.append_nil]
    · rintro s _ ⟨_, hes, rfl⟩
      exact hes
  | .aggregate _ (some e) => by
    rw [Expr.copy]
    refine (e.visits_copy.bind fun _ => Visits.pure _).congr ?_ ?_
    · rw [Expr.mentions, List.append_nil]
    · rintro s _ ⟨_, he, rfl⟩
      exact he
  | .comparison c l r => by
    rw [Expr.copy]
    refine ((Visits.comparison c).bind fun _ => l.visits_copy.bind fun _ => r.visits_copy.bind fun _ =>
      Visits.pure _).congr ?_ ?_
    · rw [Expr.mentions, List.append_nil, List.singleton_append]
    · rintro s _ ⟨_, hc, _, hl, _, hr, rfl⟩
      exact List.rel_append hc (List.rel_append hl hr)
  | .inList e es => by
    rw [Expr.copy]
    refine (e.visits_copy.bind fun _ => (Expr.visits_copyAll es).bind fun _ => Visits.pure _).congr ?_ ?_
    · rw [Expr.mentions, List.append_nil]
    · rintro s _ ⟨_, he, _, hes, rfl⟩
      exact List.rel_append he hes
  | .subquery _ p _ => by
    rw [Expr.copy]
    refine (p.visits_copy.bind fun _ => Visits.pure _).congr ?_ ?_
    · rw [Expr.mentions, List.append_nil]
    · rintro s _ ⟨_, hp, rfl⟩
      exact hp

theorem Expr.visits_copyAll :
    ∀ es : List Expr, Compares (Expr.mentionsAll es) (Expr.comparisonsAll es) (Expr.copyAll es) Expr.comparisonsAll
  | [] => by
    rw [Expr.copyAll]
    refine (Visits.pure _).congr rfl ?_
    rintro s _ rfl
    exact .nil
  | e :: es => by
    rw [Expr.copyAll]
    refine (e.visits_copy.bind fun _ => (Expr.visits_copyAll es).bind fun _ => Visits.pure _).congr ?_ ?_
    · rw [Expr.mentionsAll, List.append_nil]
    · rintro s _ ⟨_, he, _, hes, rfl⟩
      exact List.rel_append he hes

theorem Expr.visits_copyRows : ∀ rows : List (List Expr),
    Compares (Expr.mentionsRows rows) (Expr.comparisonsRows rows) (Expr.copyRows rows) Expr.comparisonsRows
  | [] => by
    rw [Expr.copyRows]
    refine (Visits.pure _).congr rfl ?_
    rintro s _ rfl
    exact .nil
  | row :: rows => by
    rw [Expr.copyRows]
    refine ((Expr.visits_copyAll row).bind fun _ => (Expr.visits_copyRows rows).bind fun _ => Visits.pure _).congr ?_ ?_
    · rw [Expr.mentionsRows, List.append_nil]
    · rintro s _ ⟨_, hrow, _, hrows, rfl⟩
      exact List.rel_append hrow hrows

theorem Expr.visits_copyJoinTree : ∀ (nodes : List JoinTreeNode) (conditions : List (List Expr)),
    Compares (Expr.mentionsJoinTree nodes conditions) (Expr.comparisonsRows conditions) (Expr.copyJoinTree nodes conditions)
      fun r => Expr.comparisonsRows r.2
  | nodes, [] => Expr.visits_copyJoinTree_nil nodes
  | [], row :: rows => by
    rw [Expr.copyJoinTree, Expr.copyRows, bind_assoc]
    simp only [bind_assoc, pure_bind]
    refine ((Expr.visits_copyAll row).bind fun _ => (Expr.visits_copyRows rows).bind fun _ => Visits.pure _).congr ?_ ?_
    · rw [Expr.mentionsJoinTree, Expr.mentionsJoinTree_nil, List.append_nil]
    · rintro s _ ⟨_, hrow, _, hrows, rfl⟩
      exact List.rel_append hrow hrows
  | n :: nodes, row :: rows => by
    rw [Expr.copyJoinTree]
    refine ((Visits.entity n.table).bind fun _ => (Expr.visits_copyAll row).bind fun _ =>
      (Expr.visits_copyJoinTree nodes rows).bind fun _ => Visits.pure _).congr ?_ ?_
    · simp [Expr.mentionsJoinTree]
    · rintro s _ ⟨_, -, _, hrow, _, hrows, rfl⟩
      exact List.rel_append hrow hrows

theorem Expr.visits_copyBound : ∀ bound : Option (Bound Expr),
    Compares (Expr.mentionsBound bound) (Expr.comparisonsBound bound) (Expr.copyBound bound) Expr.comparisonsBound
  | none => by
    refine (Visits.pure _).congr rfl ?_
    rintro s _ rfl
    exact .nil
  | some ⟨e, _⟩ => by
    rw [Expr.copyBound]
    refine (e.visits_copy.bind fun _ => Visits.pure _).congr ?_ ?_
    · rw [Expr.mentionsBound, List.append_nil]
    · rintro s _ ⟨_, he, rfl⟩
      exact he

theorem Expr.visits_copyPhase : ∀ phase : AggregatePhase Expr,
    Compares (Expr.mentionsPhase phase) (Expr.comparisonsPhase phase) (Expr.copyPhase phase) Expr.comparisonsPhase
  | .bare groupBy => by
    rw [Expr.copyPhase]
    refine ((Expr.visits_copyAll groupBy).bind fun _ => Visits.pure _).congr ?_ ?_
    · rw [Expr.mentionsPhase, List.append_nil]
    · rintro s _ ⟨_, hgroupBy, rfl⟩
      exact hgroupBy
  | .resolved groupBy aggregates => by
    rw [Expr.copyPhase]
    refine ((Expr.visits_copyAll groupBy).bind fun _ => (Expr.visits_copyAll aggregates).bind fun _ =>
      Visits.pure _).congr ?_ ?_
    · rw [Expr.mentionsPhase, List.append_nil]
    · rintro s _ ⟨_, hgroupBy, _, haggregates, rfl⟩
      exact List.rel_append hgroupBy haggregates
  | .split _ => by
    refine (Visits.pure _).congr rfl ?_
    rintro s _ rfl
    exact .nil

theorem Scan.visits_copy : ∀ s : Scan, Compares s.mentions s.comparisons s.copy Scan.comparisons
  | .single head ⟨_, _, _, ordering, equality, unions, low, high⟩ => by
    rw [Scan.copy_single]
    refine ((Expr.visits_copyAll ordering).bind fun _ => (Expr.visits_copyAll equality).bind fun _ =>
      (Expr.visits_copyRows unions).bind fun _ => (Expr.visits_copyBound low).bind fun _ =>
      (Expr.visits_copyBound high).bind fun _ => (head.visits_copy).bind fun _ => Visits.pure _).congr ?_ ?_
    · rw [Scan.mentions, List.append_nil]
    · rintro s _ ⟨_, ho, _, he, _, hu, _, hl, _, hh, _, -, rfl⟩
      exact List.rel_append ho (List.rel_append he (List.rel_append hu (List.rel_append hl hh)))
  | .intersect head _ output selector => by
    rw [Scan.copy]
    refine (output.visits_copy.bind fun _ => selector.visits_copy.bind fun _ => (head.visits_copy).bind fun _ =>
      Visits.pure _).congr ?_ ?_
    · rw [Scan.mentions, List.append_nil]
    · rintro s _ ⟨_, ho, _, hs, _, -, rfl⟩
      exact List.rel_append ho hs

/-- A copy of a plan keeps what the calls for its mentions keep, and holds copies of the comparisons of the plan. -/
theorem Plan.visits_copy : ∀ p : Plan, Compares p.mentions p.comparisons p.copy Plan.comparisons
  | .leaf id op => by
    rw [Plan.copy]
    refine ((Visits.copyNumber id).bind fun _ => (op.visits_copy).bind fun _ => Visits.pure _).congr ?_ ?_
    · simp [Plan.mentions]
    · rintro s _ ⟨_, -, _, -, rfl⟩
      exact .nil
  | .probe id (.groupLoop inside outside _) operands => by
    rw [Plan.copy]
    refine ((Visits.copyNumber id).bind fun _ => (Visits.entity inside).bind fun _ => (Visits.entity outside).bind fun _ =>
      (Expr.visits_copyAll operands).bind fun _ => Visits.pure _).congr ?_ ?_
    · simp [Plan.mentions]
    · rintro s _ ⟨_, -, _, -, _, -, _, hoperands, rfl⟩
      exact hoperands
  | .probe id (.hashLookup table tables) operands => by
    rw [Plan.copy]
    refine ((Visits.copyNumber id).bind fun _ => (Visits.entity table).bind fun _ => (Expr.visits_copyAll operands).bind fun _ =>
      (Visits.entities tables).bind fun _ => Visits.pure _).congr ?_ ?_
    · simp [Plan.mentions]
    · rintro s _ ⟨_, -, _, -, _, hoperands, _, -, rfl⟩
      exact hoperands
  | .values id rows => by
    rw [Plan.copy]
    refine ((Visits.copyNumber id).bind fun _ => (Expr.visits_copyRows rows).bind fun _ => Visits.pure _).congr ?_ ?_
    · simp [Plan.mentions]
    · rintro s _ ⟨_, -, _, hrows, rfl⟩
      exact hrows
  | .unary id op input operands => by
    rw [Plan.copy]
    refine ((Visits.copyNumber id).bind fun _ => input.visits_copy.bind fun _ => (op.visits_copy).bind fun _ =>
      (Expr.visits_copyAll operands).bind fun _ => Visits.pure _).congr ?_ ?_
    · simp [Plan.mentions]
    · rintro s _ ⟨_, -, _, hinput, _, -, _, hoperands, rfl⟩
      exact List.rel_append hinput hoperands
  | .binary id op left right operands => by
    have hid : Passes [.planNode id] (copyNumber id) := Visits.copyNumber id
    have hleft := left.visits_copy
    have hright := right.visits_copy
    have hoperands := Expr.visits_copyAll operands
    cases op with
    | bloomFilterFilter filter =>
      rw [Plan.copy]
      refine (hid.bind fun _ => hleft.bind fun _ => (Visits.entity filter).bind fun _ => hoperands.bind fun _ =>
        hright.bind fun _ => Visits.pure _).congr ?_ ?_
      · simp [Plan.mentions]
      · rintro s _ ⟨_, -, _, hl, _, -, _, ho, _, hr, rfl⟩
        exact List.rel_append hl (List.rel_append ho hr)
    | join op =>
      simp only [Plan.copy, BinaryOp.copyShared, BinaryOp.copyJoins, pure_bind, bind_assoc]
      refine (hid.bind fun _ => hleft.bind fun _ => hright.bind fun _ => hoperands.bind fun _ =>
        (Visits.entity_option op.groupJoin).bind fun _ => (Visits.entity_option op.keyJoin).bind fun _ =>
        Visits.pure _).congr ?_ ?_
      · simp [Plan.mentions, BinaryOp.sharedMentions, BinaryOp.joinMentions]
      · rintro s _ ⟨_, -, _, hl, _, hr, _, ho, _, -, _, -, rfl⟩
        exact List.rel_append hl (List.rel_append hr ho)
    | usingHashTable table =>
      simp only [Plan.copy, BinaryOp.copyShared, BinaryOp.copyJoins, pure_bind, bind_assoc]
      refine (hid.bind fun _ => (Visits.entity table).bind fun _ => hleft.bind fun _ => hright.bind fun _ =>
        hoperands.bind fun _ => Visits.pure _).congr ?_ ?_
      · simp [Plan.mentions, BinaryOp.sharedMentions, BinaryOp.joinMentions]
      · rintro s _ ⟨_, -, _, -, _, hl, _, hr, _, ho, rfl⟩
        exact List.rel_append hl (List.rel_append hr ho)
    | usingBloomFilter filter =>
      simp only [Plan.copy, BinaryOp.copyShared, BinaryOp.copyJoins, pure_bind, bind_assoc]
      refine (hid.bind fun _ => (Visits.entity filter).bind fun _ => hleft.bind fun _ => hright.bind fun _ =>
        hoperands.bind fun _ => Visits.pure _).congr ?_ ?_
      · simp [Plan.mentions, BinaryOp.sharedMentions, BinaryOp.joinMentions]
      · rintro s _ ⟨_, -, _, -, _, hl, _, hr, _, ho, rfl⟩
        exact List.rel_append hl (List.rel_append hr ho)
    | mapJoin _ | union _ =>
      simp only [Plan.copy, BinaryOp.copyShared, BinaryOp.copyJoins, pure_bind]
      refine (hid.bind fun _ => hleft.bind fun _ => hright.bind fun _ => hoperands.bind fun _ => Visits.pure _).congr ?_ ?_
      · simp [Plan.mentions, BinaryOp.sharedMentions, BinaryOp.joinMentions]
      · rintro s _ ⟨_, -, _, hl, _, hr, _, ho, rfl⟩
        exact List.rel_append hl (List.rel_append hr ho)
  | .aggregate id op phase input => by
    rw [Plan.copy_aggregate]
    refine ((Expr.visits_copyPhase phase).bind fun _ => (Visits.copyNumber id).bind fun _ =>
      input.visits_copy.bind fun _ => (Visits.entity_option op.table).bind fun _ => Visits.pure _).congr ?_ ?_
    · simp [Plan.mentions]
    · rintro s _ ⟨_, hphase, _, -, _, hinput, _, -, rfl⟩
      exact List.rel_append hphase hinput
  | .tableJoins id g input scans => by
    rw [Plan.copy]
    refine ((Visits.copyNumber id).bind fun _ => input.visits_copy.bind fun _ => (Visits.entity g).bind fun _ =>
      (Plan.visits_copyAll scans).bind fun _ => Visits.pure _).congr ?_ ?_
    · simp [Plan.mentions]
    · rintro s _ ⟨_, -, _, hinput, _, -, _, hscans, rfl⟩
      exact List.rel_append hinput hscans
  | .joinTree id g nodes conditions none => by
    rw [Plan.copy]
    refine ((Expr.visits_copyJoinTree nodes conditions).bind fun _ => (Visits.copyNumber id).bind fun _ =>
      (Visits.entity g).bind fun _ => Visits.pure _).congr ?_ ?_
    · simp [Plan.mentions]
    · rintro s _ ⟨_, hconditions, _, -, _, -, rfl⟩
      exact hconditions
  | .joinTree id g nodes conditions (some scan) => by
    rw [Plan.copy]
    simp only [bind_assoc, pure_bind]
    refine ((Expr.visits_copyJoinTree nodes conditions).bind fun _ => (Visits.copyNumber id).bind fun _ =>
      (Visits.entity g).bind fun _ => scan.visits_copy.bind fun _ => Visits.pure _).congr ?_ ?_
    · simp [Plan.mentions]
    · rintro s _ ⟨_, hconditions, _, -, _, -, _, hscan, rfl⟩
      exact List.rel_append hconditions hscan
  | .indexScan s => by
    rw [Plan.copy]
    refine (s.visits_copy.bind fun _ => Visits.pure _).congr ?_ ?_
    · rw [Plan.mentions, List.append_nil]
    · rintro s _ ⟨_, hs, rfl⟩
      exact hs

theorem Plan.visits_copyAll :
    ∀ ps : List Plan, Compares (Plan.mentionsAll ps) (Plan.comparisonsAll ps) (Plan.copyAll ps) Plan.comparisonsAll
  | [] => by
    rw [Plan.copyAll]
    refine (Visits.pure _).congr rfl ?_
    rintro s _ rfl
    exact .nil
  | p :: ps => by
    rw [Plan.copyAll]
    refine (p.visits_copy.bind fun _ => (Plan.visits_copyAll ps).bind fun _ => Visits.pure _).congr ?_ ?_
    · rw [Plan.mentionsAll, List.append_nil]
    · rintro s _ ⟨_, hp, _, hps, rfl⟩
      exact List.rel_append hp hps

end

end ClusterPlan
