import ClusterPlan.Proofs.Duplication.Answers
import ClusterPlan.Proofs.Duplication.Identity

/-!
# Plans that are copied again

The number that stands for a plan node is given once in a session, to the first copy of the node, and columns refer to it in
every copy. So a copy is self-contained exactly if none of its nodes that a column of the plan refers to was copied before in
the session (`selfContained_iff`); a column of a later copy refers into the first one.
-/

namespace ClusterPlan

open Duplication

namespace Duplication

variable {s s' : Duplication} {id : Int}

/-! ## One call -/

/-- A later state of a session, as far as the numbers of plan nodes go. -/
structure Advances (s s' : Duplication) : Prop where
  planNodes : s.planNodes ⊆ s'.planNodes
  used : s.used ⊆ s'.used
  next : s.supply.next ≤ s'.supply.next

theorem Advances.refl (s : Duplication) : s.Advances s := ⟨List.Subset.refl _, List.Subset.refl _, Int.le_refl _⟩

theorem Advances.trans {s₁ s₂ s₃ : Duplication} (h : s₁.Advances s₂) (h' : s₂.Advances s₃) : s₁.Advances s₃ :=
  ⟨List.Subset.trans h.planNodes h'.planNodes, List.Subset.trans h.used h'.used, Int.le_trans h.next h'.next⟩

/-- Kept numbers are those of the same plan nodes. -/
theorem KeepsNumbers.planNodes_eq (h : s.KeepsNumbers s') : s'.planNodes = s.planNodes := congrArg Prod.fst h.1

/-- Kept numbers are used by the same copies. -/
theorem KeepsNumbers.used_eq (h : s.KeepsNumbers s') : s'.used = s.used := congrArg Prod.snd h.1

/-- Keeping all numbers is a special case of advancing. -/
theorem KeepsNumbers.advances (h : s.KeepsNumbers s') : s.Advances s' :=
  ⟨h.planNodes_eq ▸ List.Subset.refl _, h.used_eq ▸ List.Subset.refl _, h.2⟩

/-- Where all numbers are kept, the same nodes are unclaimed. -/
theorem KeepsNumbers.unclaimed_iff (h : s.KeepsNumbers s') : s'.Unclaimed id ↔ s.Unclaimed id := by
  rw [Unclaimed, h.planNodes_eq, h.used_eq, Unclaimed]

/-- A proper ledger stays proper where all numbers are kept. -/
theorem KeepsNumbers.ledger (h : s.KeepsNumbers s') (hs : s.Ledger) : s'.Ledger := by
  constructor
  case ids =>
    rw [h.planNodes_eq]
    exact hs.ids
  case numbers =>
    rw [h.planNodes_eq]
    exact hs.numbers
  case drawn =>
    rw [h.planNodes_eq]
    exact fun n hn => Int.lt_of_lt_of_le (hs.drawn n hn) h.2
  case used =>
    rw [h.planNodes_eq, h.used_eq]
    exact hs.used

/-- A number that was claimed stays claimed. -/
theorem Advances.unclaimed (h : s.Advances s') (hs : s'.Unclaimed id) : s.Unclaimed id :=
  fun new hmem hused => hs new (h.planNodes hmem) (h.used hused)

/-- The call for the number of a referenced node takes no number back. -/
theorem advances_nodeNumber (id : Int) (s : Duplication) : s.Advances (nodeNumber id s).2 := by
  rw [nodeNumber_eq]
  cases s.planNodes.lookup id with
  | some new => exact .refl s
  | none => exact ⟨List.subset_cons_self _ _, List.Subset.refl _, Int.le_of_lt (Int.lt_succ _)⟩

/-- The call for the number of a referenced node keeps the ledger proper. -/
theorem Ledger.nodeNumber (h : s.Ledger) (id : Int) : (nodeNumber id s).2.Ledger := by
  rw [nodeNumber_eq]
  cases hl : s.planNodes.lookup id with
  | some new => exact h
  | none =>
    refine ⟨List.nodup_cons.2 ⟨not_mem_keys_of_lookup hl, h.ids⟩, List.nodup_cons.2 ⟨?_, h.numbers⟩,
      List.forall_mem_cons.2 ⟨Int.lt_succ _, ?_⟩, fun n hn => List.mem_cons_of_mem _ (h.used n hn)⟩
    · exact fun hmem => Int.lt_irrefl _ (h.drawn _ hmem)
    · exact fun n hn => Int.lt_trans (h.drawn n hn) (Int.lt_succ _)

/-- What a copied node does: it takes the number that stands for it, or a new one if another copy of it has that. -/
theorem copyNumber_cases (id : Int) (s : Duplication) :
    ∃ s₁, s₁ = (nodeNumber id s).2 ∧ ∃ mapped, (id, mapped) ∈ s₁.planNodes ∧
      ((mapped ∈ s₁.used ∧
          copyNumber id s = (s₁.supply.next, s₁.renumber (s₁.supply.next + 1) s₁.planNodes s₁.used s₁.conditions)) ∨
        (mapped ∉ s₁.used ∧
          copyNumber id s = (mapped, s₁.renumber s₁.supply.next s₁.planNodes (mapped :: s₁.used) s₁.conditions))) := by
  refine ⟨_, rfl, _, mem_planNodes_nodeNumber id s, ?_⟩
  rw [copyNumber_eq]
  dsimp only
  split
  next hused => exact Or.inl ⟨hused, rfl⟩
  next hused => exact Or.inr ⟨hused, rfl⟩

/-- The call for the number of a copied node takes no number back. -/
theorem advances_copyNumber (id : Int) (s : Duplication) : s.Advances (copyNumber id s).2 := by
  have hfirst := advances_nodeNumber id s
  obtain ⟨s₁, rfl, mapped, -, ⟨-, heq⟩ | ⟨-, heq⟩⟩ := copyNumber_cases id s
  · rw [heq]
    exact hfirst.trans ⟨List.Subset.refl _, List.Subset.refl _, Int.le_of_lt (Int.lt_succ _)⟩
  · rw [heq]
    exact hfirst.trans ⟨List.Subset.refl _, List.subset_cons_self _ _, Int.le_refl _⟩

/-- The call for the number of a copied node keeps the ledger proper. -/
theorem Ledger.copyNumber (h : s.Ledger) (id : Int) : (copyNumber id s).2.Ledger := by
  have hfirst := h.nodeNumber id
  obtain ⟨s₁, rfl, mapped, hmem, ⟨-, heq⟩ | ⟨-, heq⟩⟩ := copyNumber_cases id s
  · rw [heq]
    exact ⟨hfirst.ids, hfirst.numbers, fun n hn => Int.lt_trans (hfirst.drawn n hn) (Int.lt_succ _), hfirst.used⟩
  · rw [heq]
    exact ⟨hfirst.ids, hfirst.numbers, hfirst.drawn, List.forall_mem_cons.2 ⟨List.mem_map_of_mem hmem, hfirst.used⟩⟩

/-- After a node was copied, its number is claimed. -/
theorem not_unclaimed_copyNumber (id : Int) (s : Duplication) : ¬(copyNumber id s).2.Unclaimed id := by
  intro hun
  obtain ⟨s₁, rfl, mapped, hmem, ⟨hused, heq⟩ | ⟨-, heq⟩⟩ := copyNumber_cases id s
  · rw [heq] at hun
    exact hun mapped hmem hused
  · rw [heq] at hun
    exact hun mapped hmem List.mem_cons_self

/-- The first copy of a node has the number that stands for the node, and each later one has a new number. -/
theorem Ledger.copyNumber_answer (h : s.Ledger) (id : Int) :
    (s.Unclaimed id → (id, (Duplication.copyNumber id s).1) ∈ (Duplication.copyNumber id s).2.planNodes) ∧
      (¬s.Unclaimed id → s.supply.next ≤ (Duplication.copyNumber id s).1) := by
  have hfirst := h.nodeNumber id
  have hadvances := advances_nodeNumber id s
  refine ⟨fun hun => copyNumber_mem (unclaimed_nodeNumber hun h id) (mem_planNodes_nodeNumber id s), fun hclaimed => ?_⟩
  obtain ⟨s₁, rfl, mapped, hmem, ⟨-, heq⟩ | ⟨hunused, -⟩⟩ := copyNumber_cases id s
  · rw [heq]
    exact hadvances.next
  · refine absurd (fun new hnew hused => ?_) hclaimed
    have hsame : new = mapped := value_unique hfirst.ids (hadvances.planNodes hnew) hmem
    exact hunused (hsame ▸ hadvances.used hused)

/-! ## The calls for a list of mentions -/

/-- The call for a mention, as far as the numbers of plan nodes go. -/
theorem Ledger.call (h : s.Ledger) (m : Mention) : (m.copy s).2.Ledger ∧ s.Advances (m.copy s).2 := by
  cases m with
  | planNode id => exact ⟨h.copyNumber id, advances_copyNumber id s⟩
  | column id => exact ⟨h.nodeNumber id, advances_nodeNumber id s⟩
  | condition c => exact ⟨(silent_condition c s).ledger h, (silent_condition c s).advances⟩
  | entity ref => exact ⟨(silent_entity ref.2 s).ledger h, (silent_entity ref.2 s).advances⟩

/-- Only the call for a node claims the number of the node. -/
theorem Ledger.unclaimed_call_iff (h : s.Ledger) (m : Mention) :
    (m.copy s).2.Unclaimed id ↔ s.Unclaimed id ∧ m.planNode? ≠ some id := by
  have hback : (m.copy s).2.Unclaimed id → s.Unclaimed id := (h.call m).2.unclaimed
  cases m with
  | planNode id' =>
    have hfirst := h.nodeNumber id'
    constructor
    · intro hun
      refine ⟨hback hun, fun heq => ?_⟩
      cases heq
      exact not_unclaimed_copyNumber id s hun
    · rintro ⟨hun, hne⟩
      refine unclaimed_copyNumber (unclaimed_nodeNumber hun h id') hfirst (mem_planNodes_nodeNumber id' s) ?_
      rintro rfl
      exact hne rfl
  | column id' => exact ⟨fun hun => ⟨hback hun, nofun⟩, fun hun => unclaimed_nodeNumber hun.1 h id'⟩
  | condition c => exact ⟨fun hun => ⟨hback hun, nofun⟩, fun hun => (silent_condition c s).unclaimed_iff.2 hun.1⟩
  | entity ref => exact ⟨fun hun => ⟨hback hun, nofun⟩, fun hun => (silent_entity ref.2 s).unclaimed_iff.2 hun.1⟩

/-- The calls for some mentions: that for the first one, and the others in the state that it leaves. -/
theorem mapM_copy_cons (m : Mention) (ms : List Mention) (s : Duplication) :
    (m :: ms).mapM Mention.copy s =
      ((m.copy s).1 :: (ms.mapM Mention.copy (m.copy s).2).1, (ms.mapM Mention.copy (m.copy s).2).2) := by
  rw [List.mapM_cons]
  rfl

/-- The calls for some mentions keep the ledger proper and take no number back. -/
theorem Ledger.calls (h : s.Ledger) (ms : List Mention) :
    (ms.mapM Mention.copy s).2.Ledger ∧ s.Advances (ms.mapM Mention.copy s).2 := by
  induction ms generalizing s with
  | nil =>
    rw [List.mapM_nil]
    exact ⟨h, .refl s⟩
  | cons m ms ih =>
    obtain ⟨hfirst, hadvances⟩ := h.call m
    obtain ⟨hlast, hadvances'⟩ := ih hfirst
    rw [mapM_copy_cons]
    exact ⟨hlast, hadvances.trans hadvances'⟩

/-- The calls claim the numbers of the nodes that are mentioned. -/
theorem Ledger.unclaimed_calls_iff (h : s.Ledger) (ms : List Mention) :
    (ms.mapM Mention.copy s).2.Unclaimed id ↔ s.Unclaimed id ∧ id ∉ nodeIds ms := by
  induction ms generalizing s with
  | nil => exact (and_iff_left List.not_mem_nil).symm
  | cons m ms ih =>
    rw [mapM_copy_cons, ih (h.call m).1, h.unclaimed_call_iff, and_assoc, and_congr_right_iff]
    intro _
    simp only [nodeIds, List.filterMap_cons]
    cases m.planNode? with
    | none => simp
    | some id' => simp [eq_comm]

/-- A column gets the number that stands for its node. -/
theorem Ledger.column_of_calls (h : s.Ledger) {ms : List Mention} {i : Nat} (hi : ms[i]? = some (.column id)) :
    ∃ new, (ms.mapM Mention.copy s).1[i]? = some (.column new) ∧ (id, new) ∈ (ms.mapM Mention.copy s).2.planNodes := by
  induction ms generalizing s i with
  | nil => cases hi
  | cons m ms ih =>
    have hfirst := (h.call m).1
    rw [mapM_copy_cons]
    cases i with
    | zero =>
      obtain rfl : m = .column id := Option.some.inj hi
      exact ⟨_, rfl, (hfirst.calls ms).2.planNodes (mem_planNodes_nodeNumber id s)⟩
    | succ i => exact ih hfirst hi

/-- A node gets the number that stands for it, if that was not claimed before, and a new number otherwise. -/
theorem Ledger.planNode_of_calls (h : s.Ledger) {ms : List Mention} (hdistinct : (nodeIds ms).Nodup) {j : Nat}
    (hj : ms[j]? = some (.planNode id)) :
    ∃ new, (ms.mapM Mention.copy s).1[j]? = some (.planNode new) ∧
      (s.Unclaimed id → (id, new) ∈ (ms.mapM Mention.copy s).2.planNodes) ∧ (¬s.Unclaimed id → s.supply.next ≤ new) := by
  induction ms generalizing s j with
  | nil => cases hj
  | cons m ms ih =>
    obtain ⟨hfirst, hadvances⟩ := h.call m
    rw [mapM_copy_cons]
    cases j with
    | zero =>
      obtain rfl : m = .planNode id := Option.some.inj hj
      obtain ⟨hmine, hnew⟩ := h.copyNumber_answer id
      exact ⟨_, rfl, fun hun => (hfirst.calls ms).2.planNodes (hmine hun), hnew⟩
    | succ j =>
      have hid : id ∈ nodeIds ms := List.mem_filterMap.2 ⟨_, List.mem_of_getElem? hj, rfl⟩
      have hne : m.planNode? ≠ some id := by
        intro heq
        rw [nodeIds, List.filterMap_cons, heq] at hdistinct
        exact (List.nodup_cons.1 hdistinct).1 hid
      have hrest : (nodeIds ms).Nodup := hdistinct.sublist ((List.sublist_cons_self m ms).filterMap _)
      obtain ⟨new, hnew, hmine, hlater⟩ := ih hfirst hrest hj
      refine ⟨new, hnew, fun hun => hmine ((h.unclaimed_call_iff m).2 ⟨hun, hne⟩), fun hun => ?_⟩
      exact Int.le_trans hadvances.next (hlater fun hun' => hun ((h.unclaimed_call_iff m).1 hun').1)

/-! ## Sessions -/

/-- What is asked of a session. -/
inductive Request where
  | call (c : Call)
  /-- A plan or an expression is copied. -/
  | copy (x : Subject)
  /-- The context of the session is changed, and numbers are drawn for something else. -/
  | change (ctx : Context) (drawn : Nat)

/-- What a call is for. -/
def Call.mention : Call → Mention
  | entity ref => .entity ref
  | condition c => .condition c
  | nodeNumber id => .column id
  | copyNumber id => .planNode id

end Duplication

/-- Copying a subject leaves the state that the calls for its mentions leave. -/
theorem Subject.copy_eq (x : Subject) (s : Duplication) : (x.copy s).2 = (x.mentions.mapM Mention.copy s).2 := by
  cases x with
  | plan p => exact (p.answers_copy s).1
  | expr e => exact (e.answers_copy s).1

namespace Duplication

namespace Request

def apply (s : Duplication) : Request → Duplication
  | call c => c.apply s
  | copy x => (x.copy s).2
  | change ctx drawn => s.resume ctx ⟨s.supply.next + drawn⟩

/-- What a session is called for. -/
def mentions : Request → List Mention
  | call c => [c.mention]
  | copy x => x.mentions
  | change _ _ => []

/-- The plan nodes that are copied. -/
def nodeIds (r : Request) : List Int := Duplication.nodeIds r.mentions

/-- A request makes the calls for its mentions, or it leaves the numbers of plan nodes alone. -/
theorem apply_cases (r : Request) (s : Duplication) :
    r.apply s = (r.mentions.mapM Mention.copy s).2 ∨ (r.mentions = [] ∧ s.KeepsNumbers (r.apply s)) := by
  cases r with
  | call c =>
    rw [mentions, mapM_copy_cons, List.mapM_nil]
    refine Or.inl ?_
    cases c <;> rfl
  | copy x => exact Or.inl (x.copy_eq s)
  | change ctx drawn => exact Or.inr ⟨rfl, rfl, Int.le_add_of_nonneg_right (Int.natCast_nonneg drawn)⟩

end Request

variable {s : Duplication} {id : Int}

/-- A request keeps the ledger proper. -/
theorem Ledger.request (h : s.Ledger) (r : Request) : (r.apply s).Ledger := by
  rcases r.apply_cases s with heq | ⟨-, hkeeps⟩
  · exact heq ▸ (h.calls r.mentions).1
  · exact hkeeps.ledger h

/-- A request claims the numbers of the nodes that it copies. -/
theorem Ledger.unclaimed_request_iff (h : s.Ledger) (r : Request) :
    (r.apply s).Unclaimed id ↔ s.Unclaimed id ∧ id ∉ r.nodeIds := by
  rcases r.apply_cases s with heq | ⟨hnone, hkeeps⟩
  · rw [heq, h.unclaimed_calls_iff, Request.nodeIds]
  · rw [hkeeps.unclaimed_iff, Request.nodeIds, hnone]
    simp

/-- Requests keep the ledger proper, and an unclaimed node stays so exactly if none of them copies it. -/
theorem Ledger.requests (h : s.Ledger) (requests : List Request) :
    (requests.foldl Request.apply s).Ledger ∧
      ∀ id, (requests.foldl Request.apply s).Unclaimed id ↔ s.Unclaimed id ∧ id ∉ requests.flatMap Request.nodeIds := by
  induction requests generalizing s with
  | nil => exact ⟨h, fun id => by simp⟩
  | cons r requests ih =>
    obtain ⟨hlast, hun⟩ := ih (h.request r)
    refine ⟨hlast, fun id => ?_⟩
    rw [List.foldl_cons, hun, h.unclaimed_request_iff, List.flatMap_cons, List.mem_append, not_or, and_assoc]

/-- At the start of a session no number is given. -/
theorem ledger_start (ctx : Context) (supply : Supply) : ({ ctx, supply } : Duplication).Ledger :=
  ⟨List.nodup_nil, List.nodup_nil, nofun, nofun⟩

end Duplication

/-- A copy of a plan has its shape, and each column that refers to a node of the plan refers in the copy to the node that
stands in the same place. -/
structure Plan.SelfContained (p copy : Plan) : Prop where
  shape : copy.rename .blank = p.rename .blank
  columns : ∀ (i j : Nat) (id : Int), p.mentions[i]? = some (.column id) → p.mentions[j]? = some (.planNode id) →
    ∃ new, copy.mentions[i]? = some (.column new) ∧ copy.mentions[j]? = some (.planNode new)

/-- Whatever was asked of a session before, a copy of a plan with different nodes is self-contained exactly if no node of it that
a column of it refers to was copied before. -/
theorem selfContained_iff (ctx : Context) (supply : Supply) (requests : List Request) (p : Plan) (hdistinct : p.nodeIds.Nodup) :
    p.SelfContained (p.copy (requests.foldl Request.apply { ctx, supply })).1 ↔
      ∀ id ∈ p.nodeIds, .column id ∈ p.mentions → id ∉ requests.flatMap Request.nodeIds := by
  obtain ⟨h, hclaims⟩ := (ledger_start ctx supply).requests requests
  generalize requests.foldl Request.apply { ctx, supply } = s at h hclaims ⊢
  have hun : ∀ id, s.Unclaimed id ↔ id ∉ requests.flatMap Request.nodeIds := fun id =>
    (hclaims id).trans (and_iff_right (unclaimed_start ctx supply id))
  obtain ⟨-, hmentions, hshape⟩ := p.answers_copy s
  rw [List.nil_append] at hmentions
  have hids := (h.calls p.mentions).1.ids
  constructor
  · rintro ⟨-, hcolumns⟩ id hid hcolumn
    obtain ⟨i, hi⟩ := List.getElem?_of_mem hcolumn
    obtain ⟨m, hm, hnode⟩ := List.mem_filterMap.1 hid
    obtain ⟨j, hj⟩ := List.getElem?_of_mem hm
    obtain rfl : m = .planNode id := by
      cases m with
      | planNode id' => exact congrArg Mention.planNode (Option.some.inj hnode)
      | _ => cases hnode
    obtain ⟨new, hnewcolumn, hnewnode⟩ := hcolumns i j id hi hj
    obtain ⟨new₁, hcol, hmem⟩ := h.column_of_calls hi
    obtain ⟨new₂, hplan, -, hlater⟩ := h.planNode_of_calls hdistinct hj
    rw [hmentions, hcol] at hnewcolumn
    rw [hmentions, hplan] at hnewnode
    cases hnewcolumn
    cases hnewnode
    rw [← hun]
    -- a number that was claimed before is older than the number of this copy
    by_contra hclaimed
    obtain ⟨old, hold, -⟩ : ∃ old, (id, old) ∈ s.planNodes ∧ old ∈ s.used := by
      simpa [Unclaimed] using hclaimed
    have hsame := value_unique hids ((h.calls p.mentions).2.planNodes hold) hmem
    have hlt := h.drawn old (List.mem_map_of_mem hold)
    exact Int.not_lt.2 (hlater hclaimed) (hsame ▸ hlt)
  · intro hnew
    refine ⟨hshape, fun i j id hi hj => ?_⟩
    obtain ⟨new₁, hcol, hmem⟩ := h.column_of_calls hi
    obtain ⟨new₂, hplan, hmine, -⟩ := h.planNode_of_calls hdistinct hj
    have hid : id ∈ p.nodeIds := List.mem_filterMap.2 ⟨_, List.mem_of_getElem? hj, rfl⟩
    have hsame := value_unique hids (hmine ((hun id).2 (hnew id hid (List.mem_of_getElem? hi)))) hmem
    rw [hmentions]
    exact ⟨new₁, hcol, hsame ▸ hplan⟩

namespace ProjectedTwice

/-- A projection to a column of the node below it. -/
def plan : Plan := .unary 2 .project (.leaf 1 .nothing) [.column ⟨.node 1, 0, "k", none⟩]

/-- The copy that a session makes of the plan after some requests. -/
def copyAfter (requests : List Request) : Plan :=
  (plan.copy (requests.foldl Request.apply { ctx := .withConfig {}, supply := ⟨3⟩ })).1

/-- The second copy of the plan: its leaf has a number of its own, and the column still has that of the first. -/
theorem copyAfter_copy :
    copyAfter [.copy (.plan plan)] = .unary 5 .project (.leaf 6 .nothing) [.column ⟨.node 4, 0, "k", none⟩] := by
  simp only [copyAfter, plan, List.foldl, Request.apply, Subject.copy, Plan.copy, Expr.copy, Expr.copyAll]
  rfl

end ProjectedTwice

open ProjectedTwice in
/-- The column of the second copy refers to the leaf of the first one. -/
theorem not_selfContained_of_second_copy : ¬∀ (ctx : Context) (supply : Supply) (requests : List Request) (p : Plan),
    p.nodeIds.Nodup → p.SelfContained (p.copy (requests.foldl Request.apply { ctx, supply })).1 := by
  intro h
  have hsecond : plan.SelfContained (copyAfter [.copy (.plan plan)]) := h (.withConfig {}) ⟨3⟩ [.copy (.plan plan)] plan (by decide)
  rw [copyAfter_copy] at hsecond
  obtain ⟨new, hcolumn, hnode⟩ := hsecond.columns 2 1 1 rfl rfl
  have hcolumn : 4 = new := Mention.column.inj (Option.some.inj hcolumn)
  have hnode : 6 = new := Mention.planNode.inj (Option.some.inj hnode)
  omega

open ProjectedTwice in
/-- In the first copy the column refers to the leaf, also if a column of the leaf was copied before. -/
theorem selfContained_of_first_copy :
    plan.nodeIds.Nodup ∧ copyAfter [.call (.nodeNumber 1)] = .unary 4 .project (.leaf 3 .nothing) [.column ⟨.node 3, 0, "k", none⟩] ∧
      plan.SelfContained (copyAfter [.call (.nodeNumber 1)]) := by
  refine ⟨by decide, ?_, (selfContained_iff _ _ _ plan (by decide)).2 fun id _ _ => List.not_mem_nil⟩
  simp only [copyAfter, plan, List.foldl, Request.apply, Plan.copy, Expr.copy, Expr.copyAll]
  rfl

end ClusterPlan
