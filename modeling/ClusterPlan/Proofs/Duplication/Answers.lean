import ClusterPlan.Proofs.Duplication.PlanCopy

/-!
# A copy of a plan as the answers to its mentions

A copy of a plan calls the session for each mention of the plan, in order. Its mentions are the answers, and all else is as in
the plan (`Plan.answers_copy`). This holds in every state of a session and for every plan, so that what is known of the calls is
known of the copy.
-/

namespace ClusterPlan

open Duplication

/-- Calls a session for what a mention names. -/
def Mention.copy : Mention → Copying Mention
  | planNode id => return .planNode (← copyNumber id)
  | column id => return .column (← nodeNumber id)
  | condition c => return .condition (← Duplication.condition c)
  | entity ⟨kind, r⟩ => return .entity ⟨kind, ← Duplication.entity kind r⟩

/-- Everything that is mentioned is forgotten, and the texts of statements are too. -/
def Renaming.blank : Renaming := ⟨fun _ => 0, fun _ => ⟨0⟩, fun _ _ => ⟨0⟩, fun _ => none⟩

namespace Duplication

variable {kind : EntityKind} {α β : Type}

/-- An action makes the calls for some mentions. Its answer mentions what they answered, after what was there before, and is as
told. -/
def Follows (before ms : List Mention) (action : Copying α) (mentions : α → List Mention) (told : α → Prop) : Prop :=
  ∀ s, (action s).2 = (ms.mapM Mention.copy s).2 ∧ mentions (action s).1 = before ++ (ms.mapM Mention.copy s).1 ∧
    told (action s).1

/-- An action makes the calls for some mentions and answers with something that mentions what they answered. -/
abbrev Answers (ms : List Mention) (action : Copying α) (mentions : α → List Mention) (told : α → Prop) : Prop :=
  Follows [] ms action mentions told

namespace Follows

variable {before ms ms' : List Mention}

/-- An answer that is ready makes no calls. -/
protected theorem pure {x : α} {mentions : α → List Mention} {told : α → Prop} (h : mentions x = before) (hx : told x) :
    Follows before [] (pure x) mentions told :=
  fun _ => ⟨rfl, h.trans (List.append_nil _).symm, hx⟩

/-- One action after the other. -/
protected theorem bind {action : Copying α} {next : α → Copying β} {mentions : α → List Mention} {mentions' : β → List Mention}
    {told : α → Prop} {told' : β → Prop} (h : Answers ms action mentions told)
    (h' : ∀ x, told x → Follows (before ++ mentions x) ms' (next x) mentions' told') :
    Follows before (ms ++ ms') (action >>= next) mentions' told' := by
  intro s
  obtain ⟨hstate, hmentions, htold⟩ := h s
  obtain ⟨hstate', hmentions', htold'⟩ := h' _ htold (action s).2
  have hcalls : ((ms ++ ms').mapM Mention.copy s) =
      ((ms.mapM Mention.copy s).1 ++ (ms'.mapM Mention.copy (ms.mapM Mention.copy s).2).1,
        (ms'.mapM Mention.copy (ms.mapM Mention.copy s).2).2) := by
    rw [List.mapM_append]
    rfl
  rw [hcalls, ← hstate]
  refine ⟨hstate', ?_, htold'⟩
  rw [List.nil_append] at hmentions
  rw [hmentions, List.append_assoc] at hmentions'
  exact hmentions'

/-- The mentions can be written in another way. -/
theorem congr {action : Copying α} {mentions : α → List Mention} {told : α → Prop}
    (h : Follows before ms action mentions told) (hms : ms' = ms) : Follows before ms' action mentions told :=
  hms ▸ h

/-- Answering for each element of a list answers for the list. -/
protected theorem mapM {γ : Type} {f : α → Copying β} {ms : α → List Mention} {mentions : β → List Mention} {shape : β → γ}
    {value : α → γ} (h : ∀ x, Answers (ms x) (f x) mentions fun y => shape y = value x) (xs : List α) :
    Answers (xs.flatMap ms) (xs.mapM f) (fun ys => ys.flatMap mentions) fun ys => ys.map shape = xs.map value := by
  induction xs with
  | nil =>
    rw [List.mapM_nil]
    exact .pure rfl rfl
  | cons x xs ih =>
    rw [List.mapM_cons]
    refine ((h x).bind fun y hy => ih.bind fun ys hys => .pure ?_ ?_).congr ?_
    · rw [List.flatMap_cons, List.nil_append]
    · rw [List.map_cons, List.map_cons, hy, hys]
    · rw [List.flatMap_cons, List.append_nil]

/-- Answering for what there may be answers for the option. -/
protected theorem mapM_option {γ : Type} {f : α → Copying β} {ms : α → List Mention} {mentions : β → List Mention}
    {shape : β → γ} {value : α → γ} (h : ∀ x, Answers (ms x) (f x) mentions fun y => shape y = value x) (x : Option α) :
    Answers (x.toList.flatMap ms) (x.mapM f) (fun y => y.toList.flatMap mentions) fun y => y.map shape = x.map value := by
  cases x with
  | none => exact Follows.pure rfl rfl
  | some x =>
    refine ((h x).bind fun y hy => Follows.pure ?_ ?_).congr ?_
    · rw [Option.toList_some, List.flatMap_singleton, List.nil_append]
    · rw [Option.map_some, Option.map_some, hy]
    · rw [Option.toList_some, List.flatMap_singleton, List.append_nil]

/-! ## The calls of a session -/

/-- An action that makes the call for one mention. -/
theorem single {action : Copying α} {m : Mention} {mention : α → Mention} {told : α → Prop}
    (h : ∀ s, m.copy s = (mention (action s).1, (action s).2)) (htold : ∀ x, told x) :
    Answers [m] action (fun x => [mention x]) told := by
  intro s
  have hcall : [m].mapM Mention.copy s = ([(m.copy s).1], (m.copy s).2) := by
    rw [List.mapM_cons, List.mapM_nil]
    rfl
  rw [hcall, h]
  exact ⟨rfl, rfl, htold _⟩

/-- Nothing is left of an entity but that it is there. -/
protected theorem entity (r : Ref kind) : Answers [.of r] (entity kind r) (fun r => [.of r]) fun r' =>
    Renaming.blank.entity kind r' = Renaming.blank.entity kind r :=
  single (fun _ => rfl) fun _ => rfl

/-- Copying some entities answers for their mentions. -/
protected theorem entities (rs : List (Ref kind)) : Answers (rs.map .of) (rs.mapM (entity kind)) (fun rs => rs.map .of)
    fun rs' => rs'.map (Renaming.blank.entity kind) = rs.map (Renaming.blank.entity kind) := by
  have h := Follows.mapM Follows.entity rs
  simp only [← List.map_eq_flatMap] at h
  exact h

/-- Copying an entity that there may be answers for its mention. -/
protected theorem entity_option (r : Option (Ref kind)) : Answers (r.toList.map .of) (r.mapM (entity kind))
    (fun r => r.toList.map .of) fun r' => r'.map (Renaming.blank.entity kind) = r.map (Renaming.blank.entity kind) := by
  have h := Follows.mapM_option Follows.entity r
  simp only [← List.map_eq_flatMap] at h
  exact h

/-- The number in the place of a referenced node answers for the column. -/
protected theorem nodeNumber (id : Int) : Answers [.column id] (nodeNumber id) (fun id => [.column id]) fun _ => True :=
  single (fun _ => rfl) fun _ => trivial

/-- The number of the copy of a node answers for the node. -/
protected theorem copyNumber (id : Int) : Answers [.planNode id] (copyNumber id) (fun id => [.planNode id]) fun _ => True :=
  single (fun _ => rfl) fun _ => trivial

/-- The copy of a condition answers for it. -/
protected theorem condition (c : ConditionId) : Answers [.condition c] (condition c) (fun c => [.condition c]) fun c' =>
    Renaming.blank.condition c' = Renaming.blank.condition c :=
  single (fun _ => rfl) fun _ => rfl

/-- The copies of some conditions answer for them. -/
protected theorem conditions (cs : List ConditionId) : Answers (cs.map .condition) (cs.mapM condition)
    (fun cs => cs.map .condition) fun cs' => cs'.map Renaming.blank.condition = cs.map Renaming.blank.condition := by
  have h := Follows.mapM Follows.condition cs
  simp only [← List.map_eq_flatMap] at h
  exact h

end Follows

end Duplication

open Duplication

namespace Renaming

@[simp] theorem blank_planNode (id : Int) : blank.planNode id = 0 := rfl

@[simp] theorem blank_statement (sql : Option String) : blank.statement sql = none := rfl

end Renaming

/-! ## What nodes hold besides their inputs and operands -/

/-- The copy of the source of a column answers for what the source mentions. -/
theorem ColumnSource.answers_copy (c : ColumnSource) :
    Answers c.mentions c.copy ColumnSource.mentions fun c' => c'.rename .blank = c.rename .blank := by
  cases c with
  | table s => exact (Follows.entity s).bind fun s' hs => .pure rfl (congrArg ColumnSource.table hs)
  | node id => exact (Follows.nodeNumber id).bind fun _ _ => .pure rfl rfl

/-- The copy of what a leaf reads answers for what it mentions. -/
theorem LeafOp.answers_copy (op : LeafOp) :
    Answers op.mentions op.copy LeafOp.mentions fun op' => op'.rename .blank = op.rename .blank := by
  cases op with
  | tableSource s => exact (Follows.entity s).bind fun _ hs => .pure rfl (congrArg LeafOp.tableSource hs)
  | groupScan g => exact (Follows.entity g).bind fun _ hg => .pure rfl (congrArg LeafOp.groupScan hg)
  | nothing => exact .pure rfl rfl

/-- The copy of an operation with one input answers for what it mentions. -/
theorem UnaryOp.answers_copy (op : UnaryOp) :
    Answers op.mentions op.copy UnaryOp.mentions fun op' => op'.rename .blank = op.rename .blank := by
  cases op with
  | modify kind target => exact (Follows.entity target).bind fun _ ht => .pure rfl (congrArg (UnaryOp.modify kind) ht)
  | flatten nodes tables kinds =>
    refine ((Follows.entities nodes).bind fun _ hn => (Follows.mapM Follows.entity_option tables).bind fun _ ht =>
      .pure ?_ ?_).congr ?_
    · rw [List.nil_append, UnaryOp.mentions]
    · rw [UnaryOp.rename, UnaryOp.rename, hn, ht]
    · rw [UnaryOp.mentions, List.append_nil]
  | ancestorLookup descendant ancestors tables =>
    refine ((Follows.entity descendant).bind fun _ hd => (Follows.entities ancestors).bind fun _ ha =>
      (Follows.entities tables).bind fun _ ht => .pure ?_ ?_).congr ?_
    · simp [UnaryOp.mentions]
    · rw [UnaryOp.rename, UnaryOp.rename, hd, ha, ht]
    · simp [UnaryOp.mentions]
  | branchLookup x ancestor branch tables =>
    refine ((Follows.entity x).bind fun _ hx => (Follows.entity ancestor).bind fun _ ha =>
      (Follows.entity branch).bind fun _ hb => (Follows.entities tables).bind fun _ ht => .pure ?_ ?_).congr ?_
    · simp [UnaryOp.mentions]
    · rw [UnaryOp.rename, UnaryOp.rename, hx, ha, hb, ht]
    · simp [UnaryOp.mentions]
  | _ => exact .pure rfl rfl

/-- The copy of the head of a scan answers for what it mentions. -/
theorem ScanHead.answers_copy (h : ScanHead) :
    Answers h.mentions h.copy ScanHead.mentions fun h' => h'.rename .blank = h.rename .blank := by
  refine ((Follows.copyNumber h.id).bind fun _ _ => (Follows.entity h.rootMost).bind fun _ hr =>
    (Follows.entity h.leafMost).bind fun _ hl => (Follows.entities h.tables).bind fun _ ht =>
    (Follows.conditions h.conditions).bind fun _ hc => .pure ?_ ?_).congr ?_
  · simp [ScanHead.mentions]
  · simp [ScanHead.rename, hr, hl, ht, hc]
  · simp [ScanHead.mentions]

/-! ## Expressions, scans and plans -/

def JoinTreeNode.copy (n : JoinTreeNode) : Copying JoinTreeNode := do
  let table ← source n.table
  pure { n with table }

/-- The copy of a node of a join tree answers for its table. -/
theorem JoinTreeNode.answers_copy (n : JoinTreeNode) :
    Answers [.of n.table] n.copy (fun n => [.of n.table]) fun n' => n'.rename .blank = n.rename .blank :=
  (Follows.entity n.table).bind fun _ _ => .pure rfl rfl

/-- Without conditions only the nodes of a join tree are copied. -/
theorem Expr.copyJoinTree_nil (nodes : List JoinTreeNode) :
    Expr.copyJoinTree nodes [] = (do
      let nodes ← nodes.mapM JoinTreeNode.copy
      pure (nodes, [])) := by
  induction nodes with
  | nil => rw [Expr.copyJoinTree, Expr.copyRows, List.mapM_nil, pure_bind, pure_bind]
  | cons n nodes ih =>
    rw [Expr.copyJoinTree, ih, List.mapM_cons]
    simp only [JoinTreeNode.copy, bind_assoc, pure_bind]

/-- The nodes of a join tree that have no conditions. -/
theorem Expr.answers_copyJoinTree_nil (nodes : List JoinTreeNode) :
    Answers (Expr.mentionsJoinTree nodes []) (Expr.copyJoinTree nodes []) (fun r => Expr.mentionsJoinTree r.1 r.2) fun r =>
      r.1.map (·.rename .blank) = nodes.map (·.rename .blank) ∧ Expr.renameRows .blank r.2 = Expr.renameRows .blank [] := by
  have hmentions : ∀ nodes : List JoinTreeNode,
      Expr.mentionsJoinTree nodes [] = nodes.flatMap fun n => [.of n.table] := by
    intro nodes
    rw [← List.map_eq_flatMap]
    cases nodes <;> rw [Expr.mentionsJoinTree]
  rw [Expr.copyJoinTree_nil]
  refine ((Follows.mapM JoinTreeNode.answers_copy nodes).bind fun nodes' h => .pure ?_ ⟨h, rfl⟩).congr ?_
  · rw [hmentions, List.nil_append]
  · rw [hmentions, List.append_nil]

mutual

/-- The copy of an expression answers for all that the expression mentions, and differs in nothing else. -/
theorem Expr.answers_copy : ∀ e : Expr, Answers e.mentions e.copy Expr.mentions fun e' => e'.rename .blank = e.rename .blank
  | .constant _ _ | .parameter _ _ | .aggregate _ none => by
    rw [Expr.copy]
    exact .pure rfl rfl
  | .column c => by
    rw [Expr.copy]
    refine ((c.source.answers_copy).bind fun _ hc => .pure ?_ ?_).congr ?_
    · rw [Expr.mentions, List.nil_append]
    · rw [Expr.rename, Expr.rename, hc]
    · rw [Expr.mentions, List.append_nil]
  | .cast e _ => by
    rw [Expr.copy]
    refine (e.answers_copy.bind fun _ he => .pure ?_ ?_).congr ?_
    · rw [Expr.mentions, List.nil_append]
    · rw [Expr.rename, Expr.rename, he]
    · rw [Expr.mentions, List.append_nil]
  | .call _ es | .logical _ es | .special _ es => by
    rw [Expr.copy]
    refine ((Expr.answers_copyAll es).bind fun _ hes => .pure ?_ ?_).congr ?_
    · rw [Expr.mentions, List.nil_append]
    · rw [Expr.rename, Expr.rename, hes]
    · rw [Expr.mentions, List.append_nil]
  | .aggregate _ (some e) => by
    rw [Expr.copy]
    refine (e.answers_copy.bind fun _ he => .pure ?_ ?_).congr ?_
    · rw [Expr.mentions, List.nil_append]
    · rw [Expr.rename, Expr.rename, he]
    · rw [Expr.mentions, List.append_nil]
  | .comparison c l r => by
    rw [Expr.copy]
    refine ((Follows.condition c.id).bind fun _ hc => l.answers_copy.bind fun _ hl => r.answers_copy.bind fun _ hr =>
      .pure ?_ ?_).congr ?_
    · simp [Expr.mentions]
    · simp [Expr.rename, hc, hl, hr]
    · simp [Expr.mentions]
  | .inList e es => by
    rw [Expr.copy]
    refine (e.answers_copy.bind fun _ he => (Expr.answers_copyAll es).bind fun _ hes => .pure ?_ ?_).congr ?_
    · rw [Expr.mentions, List.nil_append]
    · rw [Expr.rename, Expr.rename, he, hes]
    · rw [Expr.mentions, List.append_nil]
  | .subquery _ p _ => by
    rw [Expr.copy]
    refine (p.answers_copy.bind fun _ hp => .pure ?_ ?_).congr ?_
    · rw [Expr.mentions, List.nil_append]
    · rw [Expr.rename, Expr.rename, hp]
    · rw [Expr.mentions, List.append_nil]

theorem Expr.answers_copyAll : ∀ es : List Expr, Answers (Expr.mentionsAll es) (Expr.copyAll es) Expr.mentionsAll fun es' =>
    Expr.renameAll .blank es' = Expr.renameAll .blank es
  | [] => by
    rw [Expr.copyAll]
    exact .pure rfl rfl
  | e :: es => by
    rw [Expr.copyAll]
    refine (e.answers_copy.bind fun _ he => (Expr.answers_copyAll es).bind fun _ hes => .pure ?_ ?_).congr ?_
    · rw [Expr.mentionsAll, List.nil_append]
    · rw [Expr.renameAll, Expr.renameAll, he, hes]
    · rw [Expr.mentionsAll, List.append_nil]

theorem Expr.answers_copyRows : ∀ rows : List (List Expr),
    Answers (Expr.mentionsRows rows) (Expr.copyRows rows) Expr.mentionsRows fun rows' =>
      Expr.renameRows .blank rows' = Expr.renameRows .blank rows
  | [] => by
    rw [Expr.copyRows]
    exact .pure rfl rfl
  | row :: rows => by
    rw [Expr.copyRows]
    refine ((Expr.answers_copyAll row).bind fun _ hrow => (Expr.answers_copyRows rows).bind fun _ hrows =>
      .pure ?_ ?_).congr ?_
    · rw [Expr.mentionsRows, List.nil_append]
    · rw [Expr.renameRows, Expr.renameRows, hrow, hrows]
    · rw [Expr.mentionsRows, List.append_nil]

theorem Expr.answers_copyJoinTree : ∀ (nodes : List JoinTreeNode) (conditions : List (List Expr)),
    Answers (Expr.mentionsJoinTree nodes conditions) (Expr.copyJoinTree nodes conditions)
      (fun r => Expr.mentionsJoinTree r.1 r.2) fun r =>
        r.1.map (·.rename .blank) = nodes.map (·.rename .blank) ∧
          Expr.renameRows .blank r.2 = Expr.renameRows .blank conditions
  | nodes, [] => Expr.answers_copyJoinTree_nil nodes
  | [], row :: rows => by
    rw [Expr.copyJoinTree, Expr.copyRows, bind_assoc]
    simp only [bind_assoc, pure_bind]
    refine ((Expr.answers_copyAll row).bind fun _ hrow => (Expr.answers_copyRows rows).bind fun _ hrows =>
      .pure ?_ ?_).congr ?_
    · rw [Expr.mentionsJoinTree, Expr.mentionsJoinTree_nil, List.nil_append]
    · rw [Expr.renameRows, Expr.renameRows, hrow, hrows]
      exact ⟨rfl, rfl⟩
    · rw [Expr.mentionsJoinTree, Expr.mentionsJoinTree_nil, List.append_nil]
  | n :: nodes, row :: rows => by
    rw [Expr.copyJoinTree]
    refine ((Follows.entity n.table).bind fun _ _ => (Expr.answers_copyAll row).bind fun _ hrow =>
      (Expr.answers_copyJoinTree nodes rows).bind fun _ hrows => .pure ?_ ?_).congr ?_
    · simp [Expr.mentionsJoinTree]
    · rw [Expr.renameRows, Expr.renameRows, hrow, hrows.2, List.map_cons, List.map_cons, hrows.1]
      exact ⟨rfl, rfl⟩
    · simp [Expr.mentionsJoinTree]

theorem Expr.answers_copyBound : ∀ bound : Option (Bound Expr),
    Answers (Expr.mentionsBound bound) (Expr.copyBound bound) Expr.mentionsBound fun bound' =>
      Expr.renameBound .blank bound' = Expr.renameBound .blank bound
  | none => .pure rfl rfl
  | some ⟨e, _⟩ => by
    rw [Expr.copyBound]
    refine (e.answers_copy.bind fun _ he => .pure ?_ ?_).congr ?_
    · rw [Expr.mentionsBound, List.nil_append]
    · rw [Expr.renameBound, Expr.renameBound, he]
    · rw [Expr.mentionsBound, List.append_nil]

theorem Expr.answers_copyPhase : ∀ phase : AggregatePhase Expr,
    Answers (Expr.mentionsPhase phase) (Expr.copyPhase phase) Expr.mentionsPhase fun phase' =>
      Expr.renamePhase .blank phase' = Expr.renamePhase .blank phase
  | .bare groupBy => by
    rw [Expr.copyPhase]
    refine ((Expr.answers_copyAll groupBy).bind fun _ hg => .pure ?_ ?_).congr ?_
    · rw [Expr.mentionsPhase, List.nil_append]
    · rw [Expr.renamePhase, Expr.renamePhase, hg]
    · rw [Expr.mentionsPhase, List.append_nil]
  | .resolved groupBy aggregates => by
    rw [Expr.copyPhase]
    refine ((Expr.answers_copyAll groupBy).bind fun _ hg => (Expr.answers_copyAll aggregates).bind fun _ ha =>
      .pure ?_ ?_).congr ?_
    · rw [Expr.mentionsPhase, List.nil_append]
    · rw [Expr.renamePhase, Expr.renamePhase, hg, ha]
    · rw [Expr.mentionsPhase, List.append_nil]
  | .split _ => .pure rfl rfl

theorem Scan.answers_copy : ∀ s : Scan, Answers s.mentions s.copy Scan.mentions fun s' => s'.rename .blank = s.rename .blank
  | .single head ⟨_, _, _, ordering, equality, unions, low, high⟩ => by
    rw [Scan.copy_single]
    refine ((Expr.answers_copyAll ordering).bind fun _ ho => (Expr.answers_copyAll equality).bind fun _ he =>
      (Expr.answers_copyRows unions).bind fun _ hu => (Expr.answers_copyBound low).bind fun _ hl =>
      (Expr.answers_copyBound high).bind fun _ hh => (head.answers_copy).bind fun _ hhead => .pure ?_ ?_).congr ?_
    · simp [Scan.mentions]
    · rw [Scan.rename, Scan.rename, ho, he, hu, hl, hh, hhead]
    · rw [Scan.mentions, List.append_nil]
  | .intersect head _ output selector => by
    rw [Scan.copy]
    refine (output.answers_copy.bind fun _ ho => selector.answers_copy.bind fun _ hs => (head.answers_copy).bind fun _ hhead =>
      .pure ?_ ?_).congr ?_
    · simp [Scan.mentions]
    · rw [Scan.rename, Scan.rename, ho, hs, hhead]
    · rw [Scan.mentions, List.append_nil]

/-- A copy of a plan has the shape of the plan, and mentions what the calls for the mentions of the plan answer. -/
theorem Plan.answers_copy : ∀ p : Plan, Answers p.mentions p.copy Plan.mentions fun p' => p'.rename .blank = p.rename .blank
  | .leaf id op => by
    rw [Plan.copy]
    refine ((Follows.copyNumber id).bind fun _ _ => (op.answers_copy).bind fun _ hop => .pure ?_ ?_).congr ?_
    · simp [Plan.mentions]
    · simp [Plan.rename, hop]
    · simp [Plan.mentions]
  | .probe id (.groupLoop inside outside _) operands => by
    rw [Plan.copy]
    refine ((Follows.copyNumber id).bind fun _ _ => (Follows.entity inside).bind fun _ hi =>
      (Follows.entity outside).bind fun _ ho => (Expr.answers_copyAll operands).bind fun _ hoperands =>
      .pure ?_ ?_).congr ?_
    · simp [Plan.mentions]
    · simp [Plan.rename, hi, ho, hoperands]
    · simp [Plan.mentions]
  | .probe id (.hashLookup table tables) operands => by
    rw [Plan.copy]
    refine ((Follows.copyNumber id).bind fun _ _ => (Follows.entity table).bind fun _ ht =>
      (Expr.answers_copyAll operands).bind fun _ hoperands => (Follows.entities tables).bind fun _ htables =>
      .pure ?_ ?_).congr ?_
    · simp [Plan.mentions]
    · simp [Plan.rename, ht, hoperands, htables]
    · simp [Plan.mentions]
  | .values id rows => by
    rw [Plan.copy]
    refine ((Follows.copyNumber id).bind fun _ _ => (Expr.answers_copyRows rows).bind fun _ hrows => .pure ?_ ?_).congr ?_
    · simp [Plan.mentions]
    · simp [Plan.rename, hrows]
    · simp [Plan.mentions]
  | .unary id op input operands => by
    rw [Plan.copy]
    refine ((Follows.copyNumber id).bind fun _ _ => input.answers_copy.bind fun _ hinput => (op.answers_copy).bind fun _ hop =>
      (Expr.answers_copyAll operands).bind fun _ hoperands => .pure ?_ ?_).congr ?_
    · simp [Plan.mentions]
    · simp [Plan.rename, hinput, hop, hoperands]
    · simp [Plan.mentions]
  | .binary id op left right operands => by
    have hid := Follows.copyNumber id
    have hleft := left.answers_copy
    have hright := right.answers_copy
    have hoperands := Expr.answers_copyAll operands
    cases op with
    | bloomFilterFilter filter =>
      rw [Plan.copy]
      refine (hid.bind fun _ _ => hleft.bind fun _ hl => (Follows.entity filter).bind fun _ hf => hoperands.bind fun _ ho =>
        hright.bind fun _ hr => .pure ?_ ?_).congr ?_
      · simp [Plan.mentions]
      · simp [Plan.rename, BinaryOp.rename, hl, hf, ho, hr]
      · simp [Plan.mentions]
    | join op =>
      simp only [Plan.copy, BinaryOp.copyShared, BinaryOp.copyJoins, pure_bind, bind_assoc]
      refine (hid.bind fun _ _ => hleft.bind fun _ hl => hright.bind fun _ hr => hoperands.bind fun _ ho =>
        (Follows.entity_option op.groupJoin).bind fun _ hg => (Follows.entity_option op.keyJoin).bind fun _ hk =>
        .pure ?_ ?_).congr ?_
      · simp [Plan.mentions, BinaryOp.sharedMentions, BinaryOp.joinMentions]
      · simp [Plan.rename, BinaryOp.rename, hl, hr, ho, hg, hk]
      · simp [Plan.mentions, BinaryOp.sharedMentions, BinaryOp.joinMentions]
    | usingHashTable table =>
      simp only [Plan.copy, BinaryOp.copyShared, BinaryOp.copyJoins, pure_bind, bind_assoc]
      refine (hid.bind fun _ _ => (Follows.entity table).bind fun _ ht => hleft.bind fun _ hl => hright.bind fun _ hr =>
        hoperands.bind fun _ ho => .pure ?_ ?_).congr ?_
      · simp [Plan.mentions, BinaryOp.sharedMentions, BinaryOp.joinMentions]
      · simp [Plan.rename, BinaryOp.rename, ht, hl, hr, ho]
      · simp [Plan.mentions, BinaryOp.sharedMentions, BinaryOp.joinMentions]
    | usingBloomFilter filter =>
      simp only [Plan.copy, BinaryOp.copyShared, BinaryOp.copyJoins, pure_bind, bind_assoc]
      refine (hid.bind fun _ _ => (Follows.entity filter).bind fun _ hf => hleft.bind fun _ hl => hright.bind fun _ hr =>
        hoperands.bind fun _ ho => .pure ?_ ?_).congr ?_
      · simp [Plan.mentions, BinaryOp.sharedMentions, BinaryOp.joinMentions]
      · simp [Plan.rename, BinaryOp.rename, hf, hl, hr, ho]
      · simp [Plan.mentions, BinaryOp.sharedMentions, BinaryOp.joinMentions]
    | mapJoin _ | union _ =>
      simp only [Plan.copy, BinaryOp.copyShared, BinaryOp.copyJoins, pure_bind]
      refine (hid.bind fun _ _ => hleft.bind fun _ hl => hright.bind fun _ hr => hoperands.bind fun _ ho =>
        .pure ?_ ?_).congr ?_
      · simp [Plan.mentions, BinaryOp.sharedMentions, BinaryOp.joinMentions]
      · simp [Plan.rename, BinaryOp.rename, hl, hr, ho]
      · simp [Plan.mentions, BinaryOp.sharedMentions, BinaryOp.joinMentions]
  | .aggregate id op phase input => by
    -- An aggregate copies its operands before it asks for its own number, as a join tree does.
    rw [Plan.copy_aggregate]
    refine ((Expr.answers_copyPhase phase).bind fun _ hphase => (Follows.copyNumber id).bind fun _ _ =>
      input.answers_copy.bind fun _ hinput => (Follows.entity_option op.table).bind fun _ ht => .pure ?_ ?_).congr ?_
    · simp [Plan.mentions]
    · simp [Plan.rename, hphase, hinput, ht]
    · simp [Plan.mentions]
  | .tableJoins id g input scans => by
    rw [Plan.copy]
    refine ((Follows.copyNumber id).bind fun _ _ => input.answers_copy.bind fun _ hinput => (Follows.entity g).bind fun _ hg =>
      (Plan.answers_copyAll scans).bind fun _ hscans => .pure ?_ ?_).congr ?_
    · simp [Plan.mentions]
    · simp [Plan.rename, hinput, hg, hscans]
    · simp [Plan.mentions]
  | .joinTree id g nodes conditions none => by
    rw [Plan.copy]
    refine ((Expr.answers_copyJoinTree nodes conditions).bind fun _ hr => (Follows.copyNumber id).bind fun _ _ =>
      (Follows.entity g).bind fun _ hg => .pure ?_ ?_).congr ?_
    · simp [Plan.mentions]
    · simp [Plan.rename, hr, hg]
    · simp [Plan.mentions]
  | .joinTree id g nodes conditions (some scan) => by
    rw [Plan.copy]
    simp only [bind_assoc, pure_bind]
    refine ((Expr.answers_copyJoinTree nodes conditions).bind fun _ hr => (Follows.copyNumber id).bind fun _ _ =>
      (Follows.entity g).bind fun _ hg => scan.answers_copy.bind fun _ hscan => .pure ?_ ?_).congr ?_
    · simp [Plan.mentions]
    · simp [Plan.rename, hr, hg, hscan]
    · simp [Plan.mentions]
  | .indexScan s => by
    rw [Plan.copy]
    refine (s.answers_copy.bind fun _ hs => .pure ?_ ?_).congr ?_
    · rw [Plan.mentions, List.nil_append]
    · rw [Plan.rename, Plan.rename, hs]
    · rw [Plan.mentions, List.append_nil]

theorem Plan.answers_copyAll : ∀ ps : List Plan, Answers (Plan.mentionsAll ps) (Plan.copyAll ps) Plan.mentionsAll fun ps' =>
    Plan.renameAll .blank ps' = Plan.renameAll .blank ps
  | [] => by
    rw [Plan.copyAll]
    exact .pure rfl rfl
  | p :: ps => by
    rw [Plan.copyAll]
    refine (p.answers_copy.bind fun _ hp => (Plan.answers_copyAll ps).bind fun _ hps => .pure ?_ ?_).congr ?_
    · rw [Plan.mentionsAll, List.nil_append]
    · rw [Plan.renameAll, Plan.renameAll, hp, hps]
    · rw [Plan.mentionsAll, List.append_nil]

end

end ClusterPlan
