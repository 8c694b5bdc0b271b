import ClusterPlan.Proofs.Duplication.Numbering
import ClusterPlan.Proofs.Plan.Renaming

/-!
# Actions that rename what they meet

An action of a session that meets some mentions renames them: its answer is a value under every renaming that agrees with the
session afterwards (`Renames`). Actions that rename compose; so that a copy of a plan is a renamed plan is proved clause by
clause.
-/

namespace ClusterPlan

namespace Duplication

/-- A session has a number or a copy for what is mentioned. -/
def Knows (s : Duplication) : Mention → Prop
  | .planNode id | .column id => id ∈ s.planNodes.map (·.1)
  | .condition c => c ∈ s.conditions.map (·.1)
  | .entity ⟨kind, r⟩ => r ∈ (s.entries kind).map (·.1)

/-- What a session knows it knows in later states. -/
theorem Extends.knows {s s' : Duplication} (h : s.Extends s') {m : Mention} (hm : s.Knows m) : s'.Knows m := by
  cases m with
  | planNode id => exact List.map_subset _ h.planNodes hm
  | column id => exact List.map_subset _ h.planNodes hm
  | condition c => exact List.map_subset _ h.conditions hm
  | entity ref => exact List.map_subset _ (h.entries ref.1) hm

end Duplication

namespace Renaming

/-- A renaming gives to each thing the number or the copy that a session has for it, and erases the texts of statements. -/
structure Agrees (ρ : Renaming) (s : Duplication) : Prop where
  planNode : ∀ old new, (old, new) ∈ s.planNodes → ρ.planNode old = new
  condition : ∀ old new, s.CopiesCondition old new → ρ.condition old = new
  entity : ∀ ⦃kind : EntityKind⦄ (old new : Ref kind), s.Copies old new → ρ.entity kind old = new
  statement : ∀ sql, ρ.statement sql = none

/-- A renaming that agrees with a later state agrees with the earlier one. -/
theorem Agrees.of_extends {ρ : Renaming} {s s' : Duplication} (h : ρ.Agrees s') (hext : s.Extends s') : ρ.Agrees s where
  planNode _ _ hmem := h.planNode _ _ (hext.planNodes hmem)
  condition _ _ hc := h.condition _ _ (hext.copiesCondition hc)
  entity _ _ _ hc := h.entity _ _ (hext.copies hc)
  statement := h.statement

end Renaming

namespace Duplication

variable {kind : EntityKind} {ctx : Context} {supply : Supply} {s : Duplication} {α β : Type}

/-- The ids that mentions give to plan nodes. -/
abbrev nodeIds (ms : List Mention) : List Int := ms.filterMap Mention.planNode?

/-- What an action that meets some mentions does in a session, and what it answers. -/
structure Renamed (ctx : Context) (supply : Supply) (ms : List Mention) (value : Renaming → α) (s s' : Duplication) (answer : α) :
    Prop where
  session : Session ctx supply s'
  later : s.Extends s'
  knows : ∀ m ∈ ms, s'.Knows m
  /-- It claims the numbers of the nodes that it meets only. -/
  unclaimed : ∀ id ∉ nodeIds ms, s.Unclaimed id → s'.Unclaimed id
  /-- Its answer is the renamed value, if it meets each node once and no node before it. -/
  answer : (nodeIds ms).Nodup → (∀ id ∈ nodeIds ms, s.Unclaimed id) → ∀ ρ : Renaming, ρ.Agrees s' → answer = value ρ

/-- An action renames what it meets, in every session on a well-formed context that has the entities among the mentions. -/
def Renames (ctx : Context) (supply : Supply) (ms : List Mention) (action : Copying α) (value : Renaming → α) : Prop :=
  ctx.WellFormed → (∀ ref, .entity ref ∈ ms → ctx.Has ref.2) →
    ∀ s, Session ctx supply s → Renamed ctx supply ms value s (action s).2 (action s).1

namespace Renames

variable {ms ms' : List Mention}

/-- An action that meets nothing. -/
protected theorem pure (x : α) : Renames ctx supply [] (pure x) fun _ => x := by
  intro _ _ s hs
  exact ⟨hs, .refl s, by simp, fun _ _ h => h, fun _ _ _ _ => rfl⟩

/-- One action after the other. The second one does not meet the nodes that the first one met. -/
protected theorem bind {action : Copying α} {next : α → Copying β} {value : Renaming → α} {value' : α → Renaming → β}
    (h : Renames ctx supply ms action value) (h' : ∀ x, Renames ctx supply ms' (next x) (value' x)) :
    Renames ctx supply (ms ++ ms') (action >>= next) fun ρ => value' (value ρ) ρ := by
  intro hwf hhas s hs
  have hfirst := h hwf (fun ref href => hhas ref (List.mem_append_left _ href)) s hs
  have hnext := h' (action s).1 hwf (fun ref href => hhas ref (List.mem_append_right _ href)) _ hfirst.session
  refine ⟨hnext.session, hfirst.later.trans hnext.later, ?_, ?_, ?_⟩
  · intro m hm
    rcases List.mem_append.1 hm with hm | hm
    · exact hnext.later.knows (hfirst.knows m hm)
    · exact hnext.knows m hm
  · intro id hid hun
    rw [nodeIds, List.filterMap_append, List.mem_append, not_or] at hid
    exact hnext.unclaimed id hid.2 (hfirst.unclaimed id hid.1 hun)
  · intro hnodup hun ρ hρ
    rw [nodeIds, List.filterMap_append] at hnodup hun
    obtain ⟨hnodup₁, hnodup₂, hdisjoint⟩ := List.nodup_append.1 hnodup
    have hvalue := hfirst.answer hnodup₁ (fun id hid => hun id (List.mem_append_left _ hid)) ρ
      (hρ.of_extends hnext.later)
    have hvalue' := hnext.answer hnodup₂ (fun id hid => hfirst.unclaimed id (fun hid' => hdisjoint id hid' id hid rfl)
      (hun id (List.mem_append_right _ hid))) ρ hρ
    rw [← hvalue]
    exact hvalue'

/-- The mentions and the value of an action can be written in another way. -/
theorem congr {action : Copying α} {value value' : Renaming → α} (h : Renames ctx supply ms action value) (hms : ms' = ms)
    (hvalue : ∀ ρ : Renaming, (∀ sql, ρ.statement sql = none) → value' ρ = value ρ) : Renames ctx supply ms' action value' := by
  subst hms
  intro hwf hhas s hs
  have hr := h hwf hhas s hs
  refine ⟨hr.session, hr.later, hr.knows, hr.unclaimed, ?_⟩
  intro hnodup hun ρ hρ
  rw [hvalue ρ hρ.statement]
  exact hr.answer hnodup hun ρ hρ

/-- An action for each element of a list. -/
protected theorem mapM {f : α → Copying β} {mentions : α → List Mention} {value : α → Renaming → β}
    (h : ∀ x, Renames ctx supply (mentions x) (f x) (value x)) (xs : List α) :
    Renames ctx supply (xs.flatMap mentions) (xs.mapM f) fun ρ => xs.map fun x => value x ρ := by
  induction xs with
  | nil =>
    rw [List.mapM_nil]
    exact Renames.pure []
  | cons x xs ih =>
    rw [List.mapM_cons]
    refine ((h x).bind fun y => ih.bind fun ys => Renames.pure (y :: ys)).congr ?_ fun _ _ => rfl
    rw [List.flatMap_cons, List.append_nil]

/-- An action for a value that may be missing. -/
protected theorem mapM_option {f : α → Copying β} {mentions : α → List Mention} {value : α → Renaming → β}
    (h : ∀ x, Renames ctx supply (mentions x) (f x) (value x)) (x : Option α) :
    Renames ctx supply (x.toList.flatMap mentions) (x.mapM f) fun ρ => x.map fun x => value x ρ := by
  cases x with
  | none => exact Renames.pure none
  | some x =>
    refine ((h x).bind fun y => Renames.pure (some y)).congr ?_ fun _ _ => rfl
    rw [Option.toList_some, List.flatMap_singleton, List.append_nil]

/-! ## The calls of a session -/

/-- The call for an entity renames it. -/
protected theorem entity (r : Ref kind) : Renames ctx supply [.of r] (entity kind r) fun ρ => ρ.entity kind r := by
  intro hwf hhas s hs
  have h := hs.inSession hwf
  have hr : s.ctx.Has r := h.has_of_start (hhas ⟨kind, r⟩ List.mem_cons_self)
  obtain ⟨-, hext, hcopy⟩ := keeps_entity h.wellFormed.closed hr s h
  refine ⟨hs.entity r hr, hext, ?_, ?_, ?_⟩
  · intro m hm
    rw [List.mem_singleton] at hm
    subst hm
    exact List.mem_map_of_mem hcopy
  · intro id _ hun
    exact hun.of_numbering (silent_entity r s).1
  · intro _ _ ρ hρ
    exact (hρ.entity _ _ hcopy).symm

/-- The calls for some entities rename them. -/
protected theorem entities (rs : List (Ref kind)) :
    Renames ctx supply (rs.map .of) (rs.mapM (entity kind)) fun ρ => rs.map (ρ.entity kind) := by
  rw [List.map_eq_flatMap]
  exact Renames.mapM (Renames.entity) rs

/-- The call for an entity that there may be renames it. -/
protected theorem entity_option (r : Option (Ref kind)) :
    Renames ctx supply (r.toList.map .of) (r.mapM (entity kind)) fun ρ => r.map (ρ.entity kind) := by
  rw [List.map_eq_flatMap]
  exact Renames.mapM_option (Renames.entity) r

/-- The call for a condition renames it. -/
protected theorem condition (c : ConditionId) :
    Renames ctx supply [.condition c] (condition c) fun ρ => ρ.condition c := by
  intro hwf _ s hs
  obtain ⟨-, hext, hcopy⟩ := keeps_condition c s (hs.inSession hwf)
  refine ⟨hs.condition c, hext, ?_, ?_, ?_⟩
  · intro m hm
    rw [List.mem_singleton] at hm
    subst hm
    exact List.mem_map_of_mem hcopy
  · intro id _ hun
    exact hun.of_numbering (silent_condition c s).1
  · intro _ _ ρ hρ
    exact (hρ.condition _ _ hcopy).symm

/-- The calls for some conditions rename them. -/
protected theorem conditions (cs : List ConditionId) :
    Renames ctx supply (cs.map .condition) (cs.mapM condition) fun ρ => cs.map ρ.condition := by
  rw [List.map_eq_flatMap]
  exact Renames.mapM (Renames.condition) cs

/-- A column refers to the number that stands for its node. -/
protected theorem nodeNumber (id : Int) : Renames ctx supply [.column id] (nodeNumber id) fun ρ => ρ.planNode id := by
  intro hwf _ s hs
  have h := hs.inSession hwf
  obtain ⟨-, hext, hmem⟩ := keeps_nodeNumber id s h
  refine ⟨hs.nodeNumber id, hext, ?_, ?_, ?_⟩
  · intro m hm
    rw [List.mem_singleton] at hm
    subst hm
    exact List.mem_map_of_mem hmem
  · intro id' _ hun
    exact unclaimed_nodeNumber hun h.numbered.ledger id
  · intro _ _ ρ hρ
    exact (hρ.planNode _ _ hmem).symm

/-- A node that was not copied before gets the number that stands for it. -/
protected theorem copyNumber (id : Int) : Renames ctx supply [.planNode id] (copyNumber id) fun ρ => ρ.planNode id := by
  intro hwf _ s hs
  have h := hs.inSession hwf
  obtain ⟨h', -, hmem⟩ := keeps_nodeNumber id s h
  obtain ⟨-, hext, hknown⟩ := keeps_copyNumber id s h
  refine ⟨hs.copyNumber id, hext, ?_, ?_, ?_⟩
  · intro m hm
    rw [List.mem_singleton] at hm
    subst hm
    exact hknown
  · intro id' hid hun
    have hne : id' ≠ id := by simpa [nodeIds, Mention.planNode?] using hid
    exact unclaimed_copyNumber (unclaimed_nodeNumber hun h.numbered.ledger id) h'.numbered.ledger hmem hne
  · intro _ hun ρ hρ
    have hmine := unclaimed_nodeNumber (hun id (by simp [nodeIds, Mention.planNode?])) h.numbered.ledger id
    exact (hρ.planNode _ _ (copyNumber_mem hmine hmem)).symm

end Renames

end Duplication

end ClusterPlan
