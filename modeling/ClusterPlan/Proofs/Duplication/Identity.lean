import ClusterPlan.Proofs.Duplication.Issuing
import ClusterPlan.Proofs.Duplication.Runs
import ClusterPlan.Proofs.Plan.Edits
import Mathlib.Logic.Relation

/-!
# The identity of plan nodes

A planner builds nodes around what it holds, copies plans in sessions and edits what it holds (`Holdings.Step`). All nodes that it
holds have different ids at any time, and an edit neither loses nor duplicates a node (`distinct_nodes_of_run`). What carries the
proof is that the ids in use are different from those that open sessions have set aside, and that all of them were drawn
(`Holdings.Valid`).
-/

namespace ClusterPlan

open Duplication

/-! ## Copies of plans and expressions -/

/-- Copies a plan or an expression. -/
def Subject.copy : Subject → Copying Subject
  | plan p => return plan (← p.copy)
  | expr e => return expr (← e.copy)

/-- The ids in the copy of a subject were not in use before. -/
theorem Subject.issues_copy (x : Subject) : Issues [] x.copy Subject.nodeIds := by
  cases x with
  | plan p => exact p.issues_copy.bind fun _ => .pure (.refl _)
  | expr e => exact e.issues_copy.bind fun _ => .pure (.refl _)

/-- A call of a session may claim a number, but makes no node. -/
theorem Duplication.Call.issues (c : Call) : Issues [] (fun s => ((), c.apply s)) fun _ => [] := by
  intro s others hs
  cases c with
  | entity ref => exact (silent_entity ref.2).issues s others hs
  | condition c => exact (silent_condition c).issues s others hs
  | nodeNumber id => exact issues_nodeNumber id s others hs
  | copyNumber id =>
    exact (issues_copyNumber id s others hs).sublist (((List.nil_sublist _).append_left others).append_right _)

/-- A session at its next step, when its context and the supply of numbers may have changed. -/
def Duplication.resume (s : Duplication) (ctx : Context) (supply : Supply) : Duplication := { s with ctx, supply }

/-! ## Runs -/

/-- What a planner has at a time: the supply of numbers, the plans and expressions that it holds, and its open sessions. -/
structure Holdings where
  supply : Supply := {}
  held : List Subject := []
  sessions : List Duplication := []

namespace Holdings

/-- One step of a planner. What it holds is in no order, and all sessions draw from the one supply. -/
inductive Step : Holdings → Holdings → Prop where
  /-- A number is drawn for something that is no node. -/
  | draw {h : Holdings} : Step h { h with supply := h.supply.draw.2 }
  /-- A node is built around inputs and operands that are held. -/
  | build {h : Holdings} {rest : List Subject} (p : Plan) :
      p.id = h.supply.draw.1 → h.held.Perm ((Subject.plan p).parts ++ rest) →
      Step h { h with supply := h.supply.draw.2, held := .plan p :: rest }
  /-- An expression is made of operands that are held. -/
  | express {h : Holdings} {rest : List Subject} (e : Expr) :
      h.held.Perm ((Subject.expr e).parts ++ rest) → Step h { h with held := .expr e :: rest }
  /-- A node inside of what is held is edited. -/
  | edit {h : Holdings} {rest : List Subject} {x x' : Subject} {back : List Plan} (site : Int) (e : Plan.Edit) :
      h.held.Perm (x :: (e.handedIn.map .plan ++ rest)) → x.edit? site e = some (x', back) →
      Step h { h with held := x' :: (back.map .plan ++ rest) }
  /-- Something that was held is given up. -/
  | discard {h : Holdings} {rest : List Subject} (x : Subject) : h.held.Perm (x :: rest) → Step h { h with held := rest }
  /-- A session begins. -/
  | begin {h : Holdings} (ctx : Context) : Step h { h with sessions := { ctx, supply := h.supply } :: h.sessions }
  /-- A plan or an expression is copied in a session. -/
  | copy {h : Holdings} {s s' : Duplication} {rest : List Duplication} {x' : Subject} (ctx : Context) (x : Subject) :
      h.sessions.Perm (s :: rest) → x.copy (s.resume ctx h.supply) = (x', s') →
      Step h { supply := s'.supply, held := x' :: h.held, sessions := s' :: rest }
  /-- A session is called for something else. -/
  | call {h : Holdings} {s : Duplication} {rest : List Duplication} (ctx : Context) (c : Call) :
      h.sessions.Perm (s :: rest) →
      Step h
        { h with
          supply := (c.apply (s.resume ctx h.supply)).supply
          sessions := c.apply (s.resume ctx h.supply) :: rest }
  /-- A session ends. -/
  | finish {h : Holdings} {s : Duplication} {rest : List Duplication} :
      h.sessions.Perm (s :: rest) → Step h { h with sessions := rest }

/-- The ids of the nodes that are held, and all that sessions have set aside. -/
def ids (h : Holdings) : List Int := Subject.idsOf h.held ++ h.sessions.flatMap reserved

/-- All these ids are different numbers that were drawn. -/
def Valid (h : Holdings) : Prop := h.supply.Issued h.ids

variable {h h' : Holdings}

/-- What is held changes without a new node. -/
theorem Valid.of_held (hvalid : h.Valid) {held : List Subject} (hheld : (Subject.idsOf held).Perm (Subject.idsOf h.held)) :
    Valid { h with held } :=
  hvalid.perm (hheld.append_right _)

/-- An action of an open session issues ids for what is held besides. -/
theorem Valid.of_action (hvalid : h.Valid) {α : Type} {action : Copying α} {made : α → List Int}
    (haction : Issues [] action made) {s s' : Duplication} {rest : List Duplication} {ctx : Context} {answer : α}
    {held : List Subject} (hsessions : h.sessions.Perm (s :: rest)) (hanswer : action (s.resume ctx h.supply) = (answer, s'))
    (hheld : (Subject.idsOf held).Perm (Subject.idsOf h.held ++ made answer)) :
    Valid { supply := s'.supply, held, sessions := s' :: rest } := by
  have hreserved : (h.sessions.flatMap reserved).Perm (s.reserved ++ rest.flatMap reserved) := hsessions.flatMap_right _
  have hbefore : (Subject.idsOf h.held ++ rest.flatMap reserved ++ [] ++ s.reserved).Perm h.ids := by
    rw [List.append_nil, List.append_assoc]
    exact (List.perm_append_comm.trans hreserved.symm).append_left _
  have hafter := haction (s.resume ctx h.supply) _ (hvalid.perm hbefore)
  rw [hanswer] at hafter
  refine hafter.perm ?_
  rw [List.perm_iff_count]
  intro a
  have hheld := hheld.count_eq a
  simp only [ids, List.flatMap_cons, List.count_append] at hheld ⊢
  omega

/-- A step is taken on what is valid and leaves it valid. -/
theorem Step.valid (hstep : Step h h') (hvalid : h.Valid) : h'.Valid := by
  cases hstep with
  | draw => exact hvalid.mono (Int.le_of_lt (Int.lt_succ _))
  -- In each case the ids that are held are the same multiset as before, or a part of it; new ones come from the supply.
  | @build rest p hid hparts =>
    refine hvalid.draw.perm ?_
    rw [← hid, List.perm_iff_count]
    intro a
    have hnode := (Subject.nodeIds_perm (.plan p)).count_eq a
    have hheld := (Subject.idsOf_perm hparts).count_eq a
    simp only [ids, Subject.idsOf_cons, Subject.idsOf_append, Subject.ownId, List.count_append, List.count_cons,
      List.count_nil] at hnode hheld ⊢
    omega
  | @express rest e hparts =>
    refine hvalid.of_held ?_
    have hoperands := (Subject.nodeIds_perm (.expr e)).append_right (Subject.idsOf rest)
    rw [Subject.idsOf_cons]
    exact hoperands.trans ((Subject.idsOf_append _ _).symm ▸ Subject.idsOf_perm hparts).symm
  | edit site e hheld hedit =>
    refine hvalid.of_held ?_
    rw [List.perm_iff_count]
    intro a
    have hheld := (Subject.idsOf_perm hheld).count_eq a
    have hedit := (Subject.perm_of_edit? hedit).count_eq a
    simp only [Subject.idsOf_cons, Subject.idsOf_append, List.count_append] at hheld hedit ⊢
    omega
  | @discard rest x hheld =>
    have hrest : (Subject.idsOf rest).Sublist (Subject.idsOf (x :: rest)) := List.sublist_append_right _ _
    exact (hvalid.perm ((Subject.idsOf_perm hheld).symm.append_right _)).sublist (hrest.append_right _)
  | begin ctx => exact hvalid
  | copy ctx x hsessions hcopy => exact hvalid.of_action x.issues_copy hsessions hcopy List.perm_append_comm
  | call ctx c hsessions => exact hvalid.of_action c.issues hsessions rfl (.of_eq (List.append_nil _).symm)
  | @finish s rest hsessions =>
    have hreserved : (h.sessions.flatMap reserved).Perm (s.reserved ++ rest.flatMap reserved) := hsessions.flatMap_right _
    exact (hvalid.perm (hreserved.symm.append_left _)).sublist ((List.sublist_append_right _ _).append_left _)

/-- Whatever a planner did before, all that it holds and all that its sessions have set aside is different. -/
theorem valid_of_run {supply : Supply} (hrun : Relation.ReflTransGen Step { supply } h) : h.Valid := by
  induction hrun with
  | refl => exact ⟨List.nodup_nil, fun _ hid => absurd hid List.not_mem_nil⟩
  | tail _ hstep ih => exact hstep.valid ih

end Holdings

/-- After every run the nodes of all plans and expressions that are held have different ids, those in subqueries, among candidate
scans and in the branches of intersections included. An edit that a node has succeeds wherever the node is found, and it neither
loses nor duplicates nodes: those afterwards and those handed back are those before and those handed in. -/
theorem distinct_nodes_of_run {supply : Supply} {h : Holdings} (hrun : Relation.ReflTransGen Holdings.Step { supply } h) :
    (Subject.idsOf h.held).Nodup ∧
      ∀ (x : Subject) (site : Int) (e : Plan.Edit) (p p' : Plan) (back : List Plan),
        x.find? site = some p → e.perform? p = some (p', back) →
        ∃ x', x.edit? site e = some (x', back) ∧
          (x'.nodeIds ++ Subject.idsOf (back.map .plan)).Perm (x.nodeIds ++ Subject.idsOf (e.handedIn.map .plan)) := by
  have hvalid := Holdings.valid_of_run hrun
  refine ⟨(List.nodup_append.1 hvalid.1).1, ?_⟩
  intro x site e p p' back hp hedit
  obtain ⟨x', hx'⟩ := Subject.exists_edit? hp hedit
  exact ⟨x', hx', Subject.perm_of_edit? hx'⟩

namespace CopiedTwice

def leaf (id : Int) : Plan := .leaf id .nothing

/-- A node over a leaf. -/
def atop (id input : Int) : Plan := .unary id (.statement none) (leaf input) []

/-- A column of a node. -/
def column (id : Int) : Expr := .column ⟨.node id, 0, "k", none⟩

/-- A session that gave numbers to plan nodes. -/
def session (next : Int) (planNodes : List (Int × Int)) (used : List Int) : Duplication :=
  { ctx := .withConfig {}, supply := ⟨next⟩, planNodes, used }

/-- The session has set a number aside for the leaf that a column refers to. -/
def columnCopied : Duplication := session 4 [(1, 3)] []

def copiedOnce : Duplication := session 5 [(2, 4), (1, 3)] [3, 4]

def copiedTwice : Duplication := session 7 [(2, 4), (1, 3)] [3, 4]

def holdings : Holdings where
  supply := ⟨8⟩
  held := [.plan (atop 4 7), .plan (leaf 3), .plan (atop 5 6), .expr (column 3), .plan (atop 2 1)]
  sessions := [copiedTwice]

open Holdings in
/-- A plan is copied twice, after a column that refers to its leaf: the first copy of the leaf takes the number that was set
aside, the second one a new one. Then the first copy gets another leaf. -/
theorem run_holdings : Relation.ReflTransGen Step {} holdings := by
  have hleaf : Step {} ⟨⟨2⟩, [.plan (leaf 1)], []⟩ := .build (leaf 1) rfl (.refl _)
  have hatop : Step ⟨⟨2⟩, [.plan (leaf 1)], []⟩ ⟨⟨3⟩, [.plan (atop 2 1)], []⟩ := .build (atop 2 1) rfl (.refl _)
  have hbegin : Step ⟨⟨3⟩, [.plan (atop 2 1)], []⟩ ⟨⟨3⟩, [.plan (atop 2 1)], [session 3 [] []]⟩ := .begin _
  have hcolumn : Step ⟨⟨3⟩, [.plan (atop 2 1)], [session 3 [] []]⟩
      ⟨⟨4⟩, [.expr (column 3), .plan (atop 2 1)], [columnCopied]⟩ := by
    refine @Step.copy _ (session 3 [] []) columnCopied [] _ (.withConfig {}) (.expr (column 1)) (.refl _) ?_
    simp only [column, Subject.copy, Expr.copy]
    rfl
  have hfirst : Step ⟨⟨4⟩, [.expr (column 3), .plan (atop 2 1)], [columnCopied]⟩
      ⟨⟨5⟩, [.plan (atop 4 3), .expr (column 3), .plan (atop 2 1)], [copiedOnce]⟩ := by
    refine @Step.copy _ columnCopied copiedOnce [] _ (.withConfig {}) (.plan (atop 2 1)) (.refl _) ?_
    simp only [atop, leaf, Subject.copy, Plan.copy, Expr.copyAll]
    rfl
  have hsecond : Step ⟨⟨5⟩, [.plan (atop 4 3), .expr (column 3), .plan (atop 2 1)], [copiedOnce]⟩
      ⟨⟨7⟩, [.plan (atop 5 6), .plan (atop 4 3), .expr (column 3), .plan (atop 2 1)], [copiedTwice]⟩ := by
    refine @Step.copy _ copiedOnce copiedTwice [] _ (.withConfig {}) (.plan (atop 2 1)) (.refl _) ?_
    simp only [atop, leaf, Subject.copy, Plan.copy, Expr.copyAll]
    rfl
  have hbuild : Step ⟨⟨7⟩, [.plan (atop 5 6), .plan (atop 4 3), .expr (column 3), .plan (atop 2 1)], [copiedTwice]⟩
      ⟨⟨8⟩, [.plan (leaf 7), .plan (atop 5 6), .plan (atop 4 3), .expr (column 3), .plan (atop 2 1)], [copiedTwice]⟩ :=
    .build (leaf 7) rfl (.refl _)
  have hedit : Step
      ⟨⟨8⟩, [.plan (leaf 7), .plan (atop 5 6), .plan (atop 4 3), .expr (column 3), .plan (atop 2 1)], [copiedTwice]⟩
      holdings := by
    have hheld : [Subject.plan (leaf 7), .plan (atop 5 6), .plan (atop 4 3), .expr (column 3), .plan (atop 2 1)].Perm
        [.plan (atop 4 3), .plan (leaf 7), .plan (atop 5 6), .expr (column 3), .plan (atop 2 1)] :=
      .trans (.cons _ (.swap _ _ _)) (.swap _ _ _)
    have hedited : (Subject.plan (atop 4 3)).edit? 4 (.setInput (leaf 7)) = some (.plan (atop 4 7), [leaf 3]) := rfl
    exact .edit 4 (.setInput (leaf 7)) hheld hedited
  exact .tail (.tail (.tail (.tail (.tail (.tail (.tail (.single hleaf) hatop) hbegin) hcolumn) hfirst) hsecond) hbuild) hedit

end CopiedTwice

open CopiedTwice in
/-- The copies have the numbers 4 and 3, and 5 and 6; the leaf that the edit hands back is still there. -/
theorem distinct_nodes_of_copied_twice :
    Relation.ReflTransGen Holdings.Step {} holdings ∧ Subject.idsOf holdings.held = [4, 7, 3, 5, 6, 2, 1] ∧
      (Subject.idsOf holdings.held).Nodup ∧
      ∃ x', (Subject.plan (atop 4 3)).edit? 4 (.setInput (leaf 7)) = some (x', [leaf 3]) ∧
        (x'.nodeIds ++ Subject.idsOf [.plan (leaf 3)]).Perm ((atop 4 3).nodeIds ++ Subject.idsOf [.plan (leaf 7)]) := by
  obtain ⟨hdistinct, hedit⟩ := distinct_nodes_of_run run_holdings
  exact ⟨run_holdings, rfl, hdistinct, hedit (.plan (atop 4 3)) 4 (.setInput (leaf 7)) _ _ _ rfl rfl⟩

end ClusterPlan
