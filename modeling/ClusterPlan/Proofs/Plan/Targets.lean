import ClusterPlan.Proofs.Plan.Changing
import ClusterPlan.Proofs.Plan.Putting

/-!
# Where a change goes

A change of a node by its id goes to the first place at which a node of the id stands, which is where a search finds it
(`Subject.exists_firstAt`). It is made by position (`Plan.modify?_eq_changeSlot?`): the plans right below a node are looked
through for the first in which the node is found, and the slot of the same position is the one that is gone into. Slots are
gathered on their own, but hold these plans in the same order (`Subject.map_belowAt?_slots`).
-/

namespace ClusterPlan

namespace Subject

variable {x : Subject} {q : Plan} {place : List Nat}

/-! ## The place of a change -/

/-- A place is the first, in the order of the nodes, at which a node of an id stands. -/
structure FirstAt (id : Int) (x : Subject) (place : List Nat) (q : Plan) : Prop where
  holds : x.belowAt? place = some (plan q)
  hasId : q.id = id
  first : ∀ other n, x.belowAt? other = some (plan n) → n.id = id → ¬List.Lex (· < ·) other place

variable {id : Int}

/-- Nothing is found exactly if no plan at any place has the id. -/
theorem find?_eq_none_iff : x.find? id = none ↔ ∀ place n, x.belowAt? place = some (plan n) → n.id ≠ id := by
  rw [find?_eq, List.find?_eq_none]
  constructor
  · intro h place n hplace hid
    exact h n (mem_nodes_iff.2 ⟨place, hplace⟩) (decide_eq_true hid)
  · intro h n hn hid
    obtain ⟨place, hplace⟩ := mem_nodes_iff.1 hn
    exact h place n hplace (of_decide_eq_true hid)

/-- Where a node is found it can be changed, and only there. -/
theorem isSome_modify? (id : Int) (f : Plan → Plan) (x : Subject) : (x.modify? id f).isSome = (x.find? id).isSome := by
  rcases x.exchanges id f with ⟨hfound, hchanged⟩ | ⟨q, x', -, hfound, hchanged, -⟩ <;> rw [hfound, hchanged] <;> rfl

/-- Where nothing is found nothing is changed. -/
theorem modify?_eq_none (f : Plan → Plan) (h : x.find? id = none) : x.modify? id f = none := by
  rw [← Option.not_isSome_iff_eq_none, isSome_modify?, h]
  exact Bool.false_ne_true

/-- Below, a node is found at the first place of the first subject in which it is found. -/
theorem exists_firstAt_below (hself : ∀ n, x = plan n → n.id ≠ id)
    (ih : ∀ y ∈ x.below, ∀ q, y.find? id = some q →
      ∃ place, y.FirstAt id place q ∧ ∀ f, y.modify? id f = some (y.putAt place (plan (f q))))
    (h : x.below.findSome? (find? id) = some q) :
    ∃ place, x.FirstAt id place q ∧ ∀ f, x.changeBelow? id f = some (x.putAt place (plan (f q))) := by
  obtain ⟨before, y, after, hbelow, hq, hbefore⟩ := List.findSome?_eq_some_iff.1 h
  obtain ⟨place, hplace, hchange⟩ := ih y (by rw [hbelow]; exact List.mem_append_right _ List.mem_cons_self) q hq
  have hi : before.length < x.below.length := by rw [hbelow, List.length_append, List.length_cons]; omega
  have hy : x.below[before.length] = y := by
    simp only [hbelow, List.getElem_append_right le_rfl, Nat.sub_self, List.getElem_cons_zero]
  refine ⟨before.length :: place, ⟨belowAt?_cons_eq_some.2 ⟨hi, hy ▸ hplace.holds⟩, hplace.hasId, ?_⟩, fun f => ?_⟩
  · rintro (_ | ⟨j, other⟩) n hn hid
    · exact absurd hid (hself n (Option.some.inj hn))
    · obtain ⟨hj, hother⟩ := belowAt?_cons_eq_some.1 hn
      rw [List.cons_lex_cons_iff]
      rintro (hlt | ⟨rfl, hearlier⟩)
      · -- before the first subject in which the node is found there is none of the id
        have hj' : x.below[j] = before[j] := by simp only [hbelow, List.getElem_append_left hlt]
        rw [hj'] at hother
        exact absurd hid (find?_eq_none_iff.1 (hbefore _ (List.getElem_mem hlt)) other n hother)
      · rw [hy] at hother
        exact hplace.first other n hother hid hearlier
  · have hnone : ∀ z ∈ before, z.modify? id f = none := fun z hz => modify?_eq_none f (hbefore z hz)
    rw [changeBelow?, putAt_cons hi, hy, hbelow, modifyFirst?_of_split hnone (hchange f), List.set_append_right _ _ le_rfl,
      Nat.sub_self]
    rfl

/-- What is found stands at a place, is the first with its id, and is what a change is made to. -/
theorem exists_firstAt (h : x.find? id = some q) :
    ∃ place, x.FirstAt id place q ∧ ∀ f, x.modify? id f = some (x.putAt place (plan (f q))) := by
  induction x using Subject.inductionOn generalizing q with
  | h x ih =>
    cases x with
    | plan p =>
      simp only [modify?_plan]
      rw [find?_plan] at h
      by_cases hid : p.id = id
      · rw [if_pos hid] at h
        cases h
        exact ⟨[], ⟨rfl, hid, fun _ _ _ _ => List.not_lex_nil⟩, fun f => if_pos hid⟩
      · simp only [if_neg hid] at h ⊢
        exact exists_firstAt_below (fun n hn => by cases hn; exact hid) (fun y hy q => ih y hy) h
    | expr e =>
      simp only [modify?_expr]
      rw [find?_expr] at h
      exact exists_firstAt_below nofun (fun y hy q => ih y hy) h

end Subject

/-! ## By position -/

section Lists

variable {α β γ : Type}

/-- Searching lists that are joined is searching them in turn. -/
theorem findSome?_flatMap (f : α → List β) (g : β → Option γ) (xs : List α) :
    (xs.flatMap f).findSome? g = xs.findSome? fun x => (f x).findSome? g := by
  induction xs with
  | nil => rfl
  | cons x xs ih =>
    rw [List.flatMap_cons, List.findSome?_append, ih, ← List.singleton_append, List.findSome?_append,
      List.findSome?_singleton]

/-- Searches that agree on all elements find the same. -/
theorem findSome?_congr {f g : α → Option β} {xs : List α} (h : ∀ x ∈ xs, f x = g x) : xs.findSome? f = xs.findSome? g := by
  rw [← Function.id_comp f, ← List.findSome?_map, List.map_congr_left h, List.findSome?_map, Function.id_comp]

/-- What is found first is what stands at the position of the first element for which there is something. -/
theorem findSome?_eq_findIdx? (g : α → Option β) (xs : List α) :
    xs.findSome? g = (xs.findIdx? fun x => (g x).isSome).bind fun i => xs[i]?.bind g := by
  induction xs with
  | nil => rfl
  | cons x xs ih =>
    rw [List.findSome?_cons, List.findIdx?_cons]
    cases hx : g x with
    | none =>
      rw [ih, if_neg (by simp), Option.bind_map]
      rfl
    | some y => exact hx.symm

/-- The first change is one at a position. -/
theorem modifyFirst?_eq_findSome? (f : α → Option α) (xs : List α) :
    modifyFirst? f xs = xs.zipIdx.findSome? fun x => (f x.1).map (xs.set x.2) := by
  induction xs with
  | nil => rfl
  | cons x xs ih =>
    rw [modifyFirst?, ih, List.map_findSome?, List.zipIdx_cons', List.findSome?_cons, List.findSome?_map]
    cases hx : f x with
    | none => exact congrArg (List.findSome? · _) (funext fun y => Option.map_map _ _ _)
    | some y => rfl

end Lists

namespace Subject

/-- Places in subjects that stand in a row, each behind the number of its subject. -/
def numbered (places : List (List (List Nat))) : List (List Nat) :=
  places.zipIdx.flatMap fun inner => inner.1.map (inner.2 :: ·)

/-- The places of the plans at the top of a subject. -/
def planPlaces : Subject → List (List Nat) :=
  fold fun
    | plan _, _ => [[]]
    | expr _, below => numbered below

/-- The places of the plans right below a subject. -/
def slots (x : Subject) : List (List Nat) := numbered (x.below.map planPlaces)

/-- Changes what stands at a place. -/
def modifyAt? (g : Subject → Option Subject) (x : Subject) (place : List Nat) : Option Subject :=
  (x.belowAt? place).bind fun y => (g y).map (x.putAt place)

variable (x : Subject)

/-- A plan at the top stands at the empty place. -/
theorem planPlaces_plan (p : Plan) : (plan p).planPlaces = [[]] := fold_eq _ _

/-- The plans at the top of an expression stand in its slots. -/
theorem planPlaces_expr (e : Expr) : (expr e).planPlaces = (expr e).slots := fold_eq _ _

/-- The slots of a subject are the places of the plans at the top of what lies below it. -/
theorem slots_eq : x.slots = x.below.zipIdx.flatMap fun y => y.1.planPlaces.map (y.2 :: ·) := by
  rw [slots, numbered, List.zipIdx_map, List.flatMap_map]
  rfl

/-- A place is looked up in the part that it starts with. -/
theorem belowAt?_cons_of_mem {x : Subject} {y : Subject × Nat} (hy : y ∈ x.below.zipIdx) (place : List Nat) :
    x.belowAt? (y.2 :: place) = y.1.belowAt? place := by
  rw [belowAt?, List.mem_zipIdx_iff_getElem?.1 hy]
  rfl

/-- A change at a place is made in the part that the place starts with. -/
theorem modifyAt?_cons_of_mem {x : Subject} {y : Subject × Nat} (hy : y ∈ x.below.zipIdx) (g : Subject → Option Subject)
    (place : List Nat) :
    x.modifyAt? g (y.2 :: place) = (y.1.modifyAt? g place).map (x.withBelow ∘ x.below.set y.2) := by
  obtain ⟨hi, hget⟩ := List.getElem?_eq_some_iff.1 (List.mem_zipIdx_iff_getElem?.1 hy)
  rw [modifyAt?, belowAt?_cons_of_mem hy, modifyAt?, Option.map_bind]
  refine congrArg (Option.bind _) (funext fun z => ?_)
  rw [Function.comp_apply, Option.map_map]
  refine congrArg (Option.map · _) (funext fun z' => ?_)
  rw [putAt_cons hi, hget]
  rfl

/-- The slots of a subject hold the plans right below it, in their order. -/
theorem map_belowAt?_slots : x.slots.map x.belowAt? = (x.below.flatMap plans).map (some ∘ plan) := by
  induction x using Subject.inductionOn with
  | h x ih =>
    have hplans : ∀ y ∈ x.below, y.planPlaces.map y.belowAt? = y.plans.map (some ∘ plan) := by
      intro y hy
      cases y with
      | plan p =>
        rw [planPlaces_plan]
        rfl
      | expr e => rw [planPlaces_expr, ih _ hy, ← plans_expr]
    have hzip : x.below.flatMap plans = x.below.zipIdx.flatMap fun y => y.1.plans := by
      rw [← List.flatMap_map Prod.fst plans, List.zipIdx_map_fst]
    rw [slots_eq, hzip, List.map_flatMap, List.map_flatMap]
    refine List.flatMap_congr fun y hy => ?_
    rw [List.map_map, ← hplans y.1 (List.fst_mem_of_mem_zipIdx hy)]
    exact List.map_congr_left fun place _ => belowAt?_cons_of_mem hy place

/-- A change below is one of the first slot in which there is one. -/
theorem changeBelow?_eq_findSome? (id : Int) (f : Plan → Plan) :
    x.changeBelow? id f = x.slots.findSome? (x.modifyAt? (modify? id f)) := by
  induction x using Subject.inductionOn with
  | h x ih =>
    have hplaces : ∀ y ∈ x.below, y.modify? id f = y.planPlaces.findSome? (y.modifyAt? (modify? id f)) := by
      intro y hy
      cases y with
      | plan p =>
        rw [planPlaces_plan, List.findSome?_singleton]
        exact Option.map_id'.symm
      | expr e => rw [planPlaces_expr, modify?_expr, ih _ hy]
    rw [changeBelow?, modifyFirst?_eq_findSome?, slots_eq, findSome?_flatMap, List.map_findSome?]
    refine findSome?_congr fun y hy => ?_
    rw [Function.comp_apply, Option.map_map, hplaces y.1 (List.fst_mem_of_mem_zipIdx hy), List.map_findSome?,
      List.findSome?_map]
    exact congrArg (List.findSome? · _) (funext fun place => (modifyAt?_cons_of_mem hy _ place).symm)

/-- The first slot in which there is a change has the position of the first of the plans in which the node is found. -/
theorem findIdx?_slots (id : Int) (f : Plan → Plan) (p : Plan) :
    (plan p).slots.findIdx? (fun slot => ((plan p).modifyAt? (modify? id f) slot).isSome) =
      p.plansBelow.findIdx? fun q => (q.find? id).isSome := by
  let holds (x : Option Subject) : Bool := (x.bind (find? id)).isSome
  have hchange (slot : List Nat) :
      ((plan p).modifyAt? (modify? id f) slot).isSome = holds ((plan p).belowAt? slot) := by
    rw [modifyAt?]
    cases (plan p).belowAt? slot with
    | none => rfl
    | some y => exact Option.isSome_map.trans (y.isSome_modify? id f)
  have hslots := congrArg (List.findIdx? holds) (plan p).map_belowAt?_slots
  rw [← plansBelow_eq, List.findIdx?_map, List.findIdx?_map] at hslots
  exact (congrArg (List.findIdx? · _) (funext hchange)).trans hslots

end Subject

namespace Plan

/-- Changes a node below by position: looks for the first of the plans right below in which it is found, and goes into the slot
that has the same position. -/
def changeSlot? (id : Int) (f : Plan → Plan) (p : Plan) : Option Plan := do
  let i ← p.plansBelow.findIdx? fun q => (q.find? id).isSome
  let slot ← (Subject.plan p).slots[i]?
  let x ← (Subject.plan p).modifyAt? (Subject.modify? id f) slot
  x.plan?

/-- A plan is changed itself, or in the first slot where the node is found. -/
theorem modify?_eq_changeSlot? (id : Int) (f : Plan → Plan) (p : Plan) :
    p.modify? id f = if p.id = id then some (f p) else p.changeSlot? id f := by
  have hplan : p.modify? id f = ((Subject.plan p).modify? id f).bind Subject.plan? := by
    rw [Subject.modify?, Option.bind_map]
    exact (Option.bind_fun_some _).symm
  rw [hplan, Subject.modify?_plan, Subject.changeBelow?_eq_findSome?, findSome?_eq_findIdx?, Subject.findIdx?_slots]
  split
  · rfl
  · simp only [Option.bind_assoc]
    rfl

end Plan

/-- A change of a node by its id goes by position, and changes what a search for the id finds: either there is nothing to be
found or to be changed; or the node that is found stands at the first place of its id, and what comes back is the plan with the
changed node at this place and all else as it was. With different ids, of which the changed node has none, the nodes that are
neither inside nor above are still found, as they were. -/
theorem Plan.changes_where_found (p : Plan) (id : Int) (f : Plan → Plan) :
    (p.modify? id f = if p.id = id then some (f p) else p.changeSlot? id f) ∧
    (p.find? id = none ∧ p.modify? id f = none ∨
      ∃ place q p', p.find? id = some q ∧ p.modify? id f = some p' ∧ (Subject.plan p).FirstAt id place q ∧
        Subject.SameBut place q (f q) (.plan p) (.plan p') ∧
        (p.DistinctIds → ∀ n ∈ p.nodes, n ∉ q.nodes → q ∉ n.nodes → n.id ∉ (f q).nodes.map Plan.id →
          p'.find? n.id = some n)) := by
  refine ⟨p.modify?_eq_changeSlot? id f, ?_⟩
  cases hfound : p.find? id with
  | none =>
    have hnone : (Subject.plan p).modify? id f = none := Subject.modify?_eq_none f hfound
    exact Or.inl ⟨rfl, Option.map_eq_none_iff.1 hnone⟩
  | some q =>
    obtain ⟨place, hfirst, hchange⟩ := Subject.exists_firstAt (x := .plan p) hfound
    obtain ⟨p', hp', hput⟩ := Option.map_eq_some_iff.1 (hchange f)
    have hsame : Subject.SameBut place q (f q) (.plan p) (.plan p') := hput ▸ Subject.sameBut_putAt hfirst.holds (f q)
    exact Or.inr ⟨place, q, p', rfl, hp', hfirst, hsame, fun hp n hn hinside habove hnew =>
      hsame.find?_id hp hn hinside habove hnew⟩

open ComparedSubquery in
/-- The plan of the subquery that a selection compares with is exchanged; the input of the selection is still found. -/
theorem changes_within_compared_subquery :
    plan.DistinctIds ∧ ∃ p', plan.modify? 3 (fun _ => .values 5 []) = some p' ∧ p'.find? 3 = none ∧
      p'.find? 1 = some (.values 1 [[.long 4]]) := by
  have hdistinct : plan.DistinctIds := by
    rw [Plan.DistinctIds]
    decide
  obtain ⟨-, ⟨hnone, -⟩ | ⟨place, q, p', hq, hp', -, -, hkept⟩⟩ := plan.changes_where_found 3 fun _ => .values 5 []
  · cases hnone
  · cases hq
    cases hp'
    have hmem : Plan.values 1 [[.long 4]] ∈ plan.nodes := List.mem_cons_of_mem _ List.mem_cons_self
    have hid {p : Plan} (h : 1 ∉ p.nodes.map Plan.id) : Plan.values 1 [[.long 4]] ∉ p.nodes := fun hp =>
      h (List.mem_map_of_mem hp)
    refine ⟨hdistinct, _, rfl, rfl, hkept hdistinct _ hmem (hid (by decide)) (fun h => ?_) (by decide)⟩
    exact absurd (List.mem_map_of_mem h) (show 3 ∉ (Plan.values 1 [[.long 4]]).nodes.map Plan.id by decide)

end ClusterPlan
