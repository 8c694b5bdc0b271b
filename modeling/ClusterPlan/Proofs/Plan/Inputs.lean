import ClusterPlan.Proofs.Plan.Edits
import ClusterPlan.Proofs.Plan.Refilling

/-!
# Replacing an input

A plan is put in the place of the first input that has a given id (`Plan.replaceInput?_of_split`). It is the only thing that
changes, so that the input that came back can be put in its place again, by the id of the plan that took it
(`Plan.replaces_one_input`).
-/

namespace ClusterPlan.Plan

/-- The node with other plans in the place of its inputs. -/
def withInputs (p : Plan) (inputs : List Plan) : Plan := p.refill inputs p.exprs

section WithInputs

variable {p : Plan} {inputs inputs' : List Plan}

/-- A node with other inputs has these. -/
theorem children_withInputs (h : inputs.length = p.children.length) : (p.withInputs inputs).children = inputs :=
  children_refill h

/-- A node with other inputs has its expressions still. -/
theorem exprs_withInputs (p : Plan) (inputs : List Plan) : (p.withInputs inputs).exprs = p.exprs := exprs_refill rfl

/-- With its own inputs a node is what it was. -/
theorem withInputs_children (p : Plan) : p.withInputs p.children = p := p.refill_self

/-- The inputs that are given last are those that count. -/
theorem withInputs_withInputs (h : inputs.length = p.children.length) (h' : inputs'.length = p.children.length) :
    (p.withInputs inputs).withInputs inputs' = p.withInputs inputs' := by
  rw [withInputs, exprs_withInputs]
  exact refill_refill h rfl h' rfl

end WithInputs

variable {p c : Plan} {before after : List Plan} {old : Int}

/-- The first input with the id comes back, and the new plan stands in its place. -/
theorem replaceInput?_eq (p : Plan) (old : Int) (new : Plan) :
    p.replaceInput? old new = (p.children.findIdx? (·.id = old)).bind fun i =>
      p.children[i]?.map fun c => (c, p.withInputs (p.children.set i new)) := by
  have hone (q : Plan) : [q].findIdx? (·.id = old) = if q.id = old then some 0 else none := by
    simp [List.findIdx?_cons]
  cases p with
  | leaf | probe | values | indexScan => rfl
  | unary id op input operands | tableJoins id group input scans =>
    rw [replaceInput?, children, hone]
    split <;> rfl
  | aggregate id op phase input =>
    have hset : (aggregate id op phase input).withInputs [new] = aggregate id op phase new :=
      congrArg (aggregate id op · new) phase.withOperands_operands
    rw [replaceInput?, children, hone, ← hset]
    split <;> rfl
  | binary id op left right operands =>
    rw [replaceInput?, children, List.findIdx?_cons, hone]
    by_cases hleft : left.id = old
    · simp only [hleft, decide_true, if_true]
      rfl
    · by_cases hright : right.id = old <;> simp only [hleft, hright, decide_false, if_true, if_false] <;> rfl
  | joinTree id group nodes conditions scan =>
    cases scan with
    | none => rfl
    | some scan =>
      have hset : (joinTree id group nodes conditions (some scan)).withInputs [new] =
          joinTree id group nodes conditions (some new) :=
        congrArg (joinTree id group nodes · (some new)) (splitLengths_flatten conditions)
      rw [replaceInput?, children, Option.toList_some, hone, ← hset]
      split <;> rfl

/-- If no input in front of one has the id that it has, it is the one that is replaced. -/
theorem replaceInput?_of_split (hinputs : p.children = before ++ c :: after) (hbefore : ∀ d ∈ before, d.id ≠ old)
    (hc : c.id = old) (new : Plan) : p.replaceInput? old new = some (c, p.withInputs (before ++ new :: after)) := by
  have hnone : before.findIdx? (·.id = old) = none :=
    List.findIdx?_eq_none_iff.2 fun d hd => decide_eq_false (hbefore d hd)
  rw [replaceInput?_eq, hinputs, List.findIdx?_append, hnone, List.findIdx?_cons, hc]
  simp

/-- If no input has the id, nothing is replaced. -/
theorem replaceInput?_eq_none (h : old ∉ p.children.map id) (new : Plan) : p.replaceInput? old new = none := by
  have hnone : p.children.findIdx? (·.id = old) = none :=
    List.findIdx?_eq_none_iff.2 fun c hc => decide_eq_false fun hid => h (hid ▸ List.mem_map_of_mem hc)
  rw [replaceInput?_eq, hnone]
  rfl

/-- The first element of a list that has an id. -/
theorem exists_split_of_mem_ids {ps : List Plan} (h : old ∈ ps.map id) :
    ∃ before c after, ps = before ++ c :: after ∧ c.id = old ∧ ∀ d ∈ before, d.id ≠ old := by
  obtain ⟨d, hd, hid⟩ := List.mem_map.1 h
  have hsome : (ps.find? (·.id = old)).isSome := List.find?_isSome.2 ⟨d, hd, decide_eq_true hid⟩
  obtain ⟨c, hc⟩ := Option.isSome_iff_exists.1 hsome
  obtain ⟨hold, before, after, hsplit, hbefore⟩ := List.find?_eq_some_iff_append.1 hc
  exact ⟨before, c, after, hsplit, of_decide_eq_true hold, fun d hd => by simpa using hbefore d hd⟩

/-- A node with another plan in the place of an input has other nodes by as many as the plans differ. -/
theorem nodeCount_withInputs (hinputs : p.children = before ++ c :: after) (new : Plan) :
    (p.withInputs (before ++ new :: after)).nodeCount + c.nodeCount = p.nodeCount + new.nodeCount := by
  have hchildren : (p.withInputs (before ++ new :: after)).children = before ++ new :: after :=
    children_withInputs (by rw [hinputs]; simp)
  rw [nodeCount_eq, nodeCount_eq p, hchildren, hinputs]
  simp only [List.map_append, List.map_cons, List.sum_append, List.sum_cons]
  omega

/-- A plan that is to replace an input. If the id is that of an input, the first such input comes back, the plan stands in its
place and nothing else of the node has changed; the nodes are those that were there without those of the input that came back
and with those of the plan. If moreover no other input has the id of the plan, replacing the plan by what came back gives the
plan back and the node is exactly as it was. If there is no input with the id the node stays and the plan comes back. -/
theorem replaces_one_input (p : Plan) (old : Int) (new : Plan) :
    (old ∈ p.children.map id → ∃ before back after, p.children = before ++ back :: after ∧ back.id = old ∧
      (∀ c ∈ before, c.id ≠ old) ∧
      ∃ p', (Edit.replaceInput old new).perform? p = some (p', [back]) ∧ p.replaceInput? old new = some (back, p') ∧
        p'.children = before ++ new :: after ∧ p'.exprs = p.exprs ∧ p' = p.withInputs p'.children ∧
        p = p'.withInputs p.children ∧
        back.nodeCount < p.nodeCount ∧ p'.nodeCount = p.nodeCount - back.nodeCount + new.nodeCount ∧
        ((∀ c ∈ before ++ after, c.id ≠ new.id) → p'.replaceInput? new.id back = some (new, p))) ∧
    (old ∉ p.children.map id →
      (Edit.replaceInput old new).perform? p = some (p, [new]) ∧ p.replaceInput? old new = none) := by
  constructor
  · intro hold
    obtain ⟨before, back, after, hinputs, hid, hbefore⟩ := exists_split_of_mem_ids hold
    have hlength : (before ++ new :: after).length = p.children.length := by
      rw [hinputs, List.length_append, List.length_append, List.length_cons, List.length_cons]
    have hreplace := replaceInput?_of_split hinputs hbefore hid new
    have hchildren : (p.withInputs (before ++ new :: after)).children = before ++ new :: after := children_withInputs hlength
    have hrestored : (p.withInputs (before ++ new :: after)).withInputs p.children = p :=
      (withInputs_withInputs hlength rfl).trans p.withInputs_children
    have hcount := nodeCount_withInputs hinputs new
    have hless : back.nodeCount < p.nodeCount := by
      rw [nodeCount_eq p, hinputs, List.map_append, List.map_cons, List.sum_append, List.sum_cons]
      omega
    refine ⟨before, back, after, hinputs, hid, hbefore, _, ?_, hreplace, hchildren, exprs_withInputs _ _, ?_, hrestored.symm,
      hless, ?_, ?_⟩
    · rw [Edit.perform?, hreplace]
    · rw [hchildren]
    · omega
    -- Only here it matters that no other input has the new id: the way back replaces the first input with that id.
    · intro hother
      have hback := replaceInput?_of_split hchildren (fun c hc => hother c (List.mem_append_left _ hc)) rfl back
      rw [hback, ← hinputs, hrestored]
  · intro hold
    have hnone := replaceInput?_eq_none hold new
    refine ⟨?_, hnone⟩
    rw [Edit.perform?, hnone]

namespace OrdersJoin

/-- The joins of a group with one candidate scan. -/
def candidates : Plan := tableJoins 3 ⟨0⟩ (leaf 1 .nothing) [leaf 2 .nothing]

/-- Keeps the rows of the left input for which the right one has rows. -/
def join (right : Plan) : Plan := binary 5 (.mapJoin .semi) (leaf 6 .nothing) right []

end OrdersJoin

open OrdersJoin in
/-- The right input of a join is replaced and put back, since the left one has another id than the plan that stood in for it.
What lies deeper is no input of the join and is not found. -/
theorem replaces_right_input :
    (join candidates).replaceInput? 3 (leaf 4 .nothing) = some (candidates, join (leaf 4 .nothing)) ∧
      (join (leaf 4 .nothing)).replaceInput? 4 candidates = some (leaf 4 .nothing, join candidates) ∧
      (join candidates).replaceInput? 2 (leaf 4 .nothing) = none := by
  obtain ⟨hinput, -⟩ := replaces_one_input (join candidates) 3 (leaf 4 .nothing)
  obtain ⟨-, hscan⟩ := replaces_one_input (join candidates) 2 (leaf 4 .nothing)
  obtain ⟨before, back, after, hsplit, hid, hbefore, p', -, hreplace, hchildren, -, hp', -, -, -, hback⟩ := hinput (by decide)
  have hsplit : [leaf 6 .nothing, candidates] = before ++ back :: after := hsplit
  rcases before with - | ⟨first, before⟩
  · -- the first input has another id than what came back
    obtain ⟨rfl, -⟩ := List.cons.inj hsplit
    exact absurd hid (by decide)
  · obtain ⟨rfl, hrest⟩ := List.cons.inj hsplit
    obtain ⟨rfl, hnil⟩ | ⟨-, hnil⟩ := List.append_eq_singleton_iff.1 hrest.symm
    · obtain ⟨rfl, rfl⟩ := List.cons.inj hnil
      rw [hchildren] at hp'
      subst hp'
      have hother : ∀ c ∈ [leaf 6 .nothing] ++ [], id c ≠ id (leaf 4 .nothing) := by decide
      exact ⟨hreplace, hback hother, (hscan (by decide)).2⟩
    · cases hnil

end ClusterPlan.Plan
