import ClusterPlan.Proofs.Plan.Nodes
import ClusterPlan.Proofs.Plan.Refilling

/-!
# Other subjects at a place

The nodes and expressions of a plan and of all its subqueries stand at places: the way to one goes through what lies below, from
number to number (`Subject.belowAt?`). What is put at a place (`Subject.putAt`) stands there, and nothing beside the place is
different; what is above has it inside, and is as it was once the old is put back (`Subject.sameBut_putAt`).
-/

namespace ClusterPlan

namespace Subject

/-- What stands at a place: the way there goes through what lies below. -/
def belowAt? : Subject → List Nat → Option Subject
  | x, [] => some x
  | x, i :: place => x.below[i]?.bind fun y => y.belowAt? place

/-- Puts another subject at a place. -/
def putAt : Subject → List Nat → Subject → Subject
  | _, [], new => new
  | x, i :: place, new => x.withBelow (x.below.modify i (·.putAt place new))

variable {x y new new' : Subject} {p q r : Plan} {place other : List Nat} {i : Nat}

/-- A place starts with the number of one of the things right below. -/
theorem belowAt?_cons_eq_some :
    x.belowAt? (i :: place) = some y ↔ ∃ hi : i < x.below.length, x.below[i].belowAt? place = some y := by
  rw [belowAt?, Option.bind_eq_some_iff]
  constructor
  · rintro ⟨z, hz, hplace⟩
    obtain ⟨hi, rfl⟩ := List.getElem?_eq_some_iff.1 hz
    exact ⟨hi, hplace⟩
  · rintro ⟨hi, hplace⟩
    exact ⟨_, List.getElem?_eq_getElem hi, hplace⟩

/-- A place may be looked up in two steps. -/
theorem belowAt?_append (x : Subject) (outer inner : List Nat) :
    x.belowAt? (outer ++ inner) = (x.belowAt? outer).bind (·.belowAt? inner) := by
  induction outer generalizing x with
  | nil => rfl
  | cons i outer ih =>
    rw [List.cons_append, belowAt?, belowAt?, Option.bind_assoc]
    exact congrArg (Option.bind _) (funext fun y => ih y)

/-- Putting something at a place puts it into the part that the place starts with. -/
theorem putAt_cons (hi : i < x.below.length) (place : List Nat) (new : Subject) :
    x.putAt (i :: place) new = x.withBelow (x.below.set i (x.below[i].putAt place new)) := by
  rw [putAt, List.modify_eq_set_getElem?, List.getElem?_eq_getElem hi]
  rfl

/-- The nodes of a subject stand at its places. -/
theorem mem_nodes_iff : q ∈ x.nodes ↔ ∃ place, x.belowAt? place = some (plan q) := by
  induction x using Subject.inductionOn with
  | h x ih =>
    rw [nodes_eq, List.mem_append, List.mem_flatMap]
    constructor
    · rintro (hself | ⟨y, hy, hq⟩)
      · cases x with
        | plan p => exact ⟨[], congrArg (some ∘ plan) (List.mem_singleton.1 hself).symm⟩
        | expr e => cases hself
      · obtain ⟨place, hplace⟩ := (ih y hy).1 hq
        obtain ⟨i, hi, rfl⟩ := List.mem_iff_getElem.1 hy
        exact ⟨i :: place, belowAt?_cons_eq_some.2 ⟨hi, hplace⟩⟩
    · rintro ⟨_ | ⟨i, place⟩, hplace⟩
      · cases hplace
        exact Or.inl (List.mem_singleton_self q)
      · obtain ⟨hi, hplace⟩ := belowAt?_cons_eq_some.1 hplace
        exact Or.inr ⟨_, List.getElem_mem hi, (ih _ (List.getElem_mem hi)).2 ⟨place, hplace⟩⟩

/-- Putting a plan in the place of a plan, or an expression in that of one, leaves the kind of the subject. -/
theorem isPlan_putAt (h : x.belowAt? place = some y) (hkind : new.isPlan = y.isPlan) :
    (x.putAt place new).isPlan = x.isPlan := by
  cases place with
  | nil =>
    cases h
    exact hkind
  | cons i place => exact isPlan_withBelow _ _

/-- A subject in the place of another of its kind fits. -/
theorem fits_set (hi : i < x.below.length) (hkind : new.isPlan = x.below[i].isPlan) : x.Fits (x.below.set i new) := by
  have hi' : i < (x.below.map isPlan).length := by rwa [List.length_map]
  rw [Fits, List.map_set, hkind, ← List.getElem_map isPlan (h := hi'), List.set_getElem_self]

/-- At the place stands what was put there. -/
theorem belowAt?_putAt (h : x.belowAt? place = some y) (hkind : new.isPlan = y.isPlan) :
    (x.putAt place new).belowAt? place = some new := by
  induction place generalizing x with
  | nil => rfl
  | cons i place ih =>
    obtain ⟨hi, hplace⟩ := belowAt?_cons_eq_some.1 h
    rw [putAt_cons hi, belowAt?, below_withBelow (fits_set hi (isPlan_putAt hplace hkind)), List.getElem?_set_self hi]
    exact ih hplace

/-- With what stands at a place put there once more, a subject is as it was. -/
theorem putAt_self (h : x.belowAt? place = some y) : x.putAt place y = x := by
  induction place generalizing x with
  | nil => exact (Option.some.inj h).symm
  | cons i place ih =>
    obtain ⟨hi, hplace⟩ := belowAt?_cons_eq_some.1 h
    rw [putAt_cons hi, ih hplace, List.set_getElem_self, withBelow_below]

/-- Only what was put at a place last counts. -/
theorem putAt_putAt (h : x.belowAt? place = some y) (hkind : new.isPlan = y.isPlan) (hkind' : new'.isPlan = y.isPlan) :
    (x.putAt place new).putAt place new' = x.putAt place new' := by
  induction place generalizing x with
  | nil => rfl
  | cons i place ih =>
    obtain ⟨hi, hplace⟩ := belowAt?_cons_eq_some.1 h
    have hfits := fits_set hi (isPlan_putAt hplace hkind)
    have hbelow := below_withBelow hfits
    rw [putAt_cons hi, putAt_cons hi, putAt_cons (by rwa [hbelow, List.length_set])]
    simp only [hbelow, List.getElem_set_self, List.set_set, ih hplace]
    exact withBelow_withBelow hfits (fits_set hi (isPlan_putAt hplace hkind'))

/-- At a place that is neither inside nor above, nothing changes. -/
theorem belowAt?_putAt_of_apart (h : x.belowAt? place = some y) (hkind : new.isPlan = y.isPlan) (houtside : ¬place <+: other)
    (hbeside : ¬other <+: place) : (x.putAt place new).belowAt? other = x.belowAt? other := by
  induction place generalizing x other with
  | nil => exact absurd List.nil_prefix houtside
  | cons i place ih =>
    obtain ⟨hi, hplace⟩ := belowAt?_cons_eq_some.1 h
    cases other with
    | nil => exact absurd List.nil_prefix hbeside
    | cons j other =>
      rw [putAt_cons hi, belowAt?, below_withBelow (fits_set hi (isPlan_putAt hplace hkind)), belowAt?]
      by_cases hij : i = j
      · subst hij
        rw [List.getElem?_set_self hi, List.getElem?_eq_getElem hi]
        exact ih hplace (fun h => houtside (List.cons_prefix_cons.2 ⟨rfl, h⟩))
          fun h => hbeside (List.cons_prefix_cons.2 ⟨rfl, h⟩)
      · rw [List.getElem?_set_ne hij]

/-- What stands above has the other subject put inside. -/
theorem belowAt?_putAt_append {outer inner : List Nat} (h : x.belowAt? (outer ++ inner) = some y)
    (hkind : new.isPlan = y.isPlan) :
    (x.putAt (outer ++ inner) new).belowAt? outer = (x.belowAt? outer).map (·.putAt inner new) := by
  induction outer generalizing x with
  | nil => rfl
  | cons i outer ih =>
    rw [List.cons_append] at h ⊢
    obtain ⟨hi, hplace⟩ := belowAt?_cons_eq_some.1 h
    rw [putAt_cons hi, belowAt?, below_withBelow (fits_set hi (isPlan_putAt hplace hkind)),
      List.getElem?_set_self hi, belowAt?, List.getElem?_eq_getElem hi]
    exact ih hplace

/-! ## What stays -/

/-- Two subjects are the same but for the plans at a place. -/
structure SameBut (place : List Nat) (old new : Plan) (x x' : Subject) : Prop where
  before : x.belowAt? place = some (plan old)
  after : x'.belowAt? place = some (plan new)
  apart : ∀ other, ¬place <+: other → ¬other <+: place → x'.belowAt? other = x.belowAt? other
  above : ∀ outer inner, outer ++ inner = place → x'.belowAt? outer = (x.belowAt? outer).map (·.putAt inner (plan new))
  back : x'.putAt place (plan old) = x

/-- Putting another plan in the place of a plan changes nothing else. -/
theorem sameBut_putAt (h : x.belowAt? place = some (plan q)) (r : Plan) : SameBut place q r x (x.putAt place (plan r)) where
  before := h
  after := belowAt?_putAt h rfl
  apart _ houtside hbeside := belowAt?_putAt_of_apart h rfl houtside hbeside
  above _ _ hplace := by
    subst hplace
    exact belowAt?_putAt_append h rfl
  back := by
    have hput : (x.putAt place (plan r)).putAt place (plan q) = x.putAt place (plan q) := putAt_putAt h rfl rfl
    rw [hput, putAt_self h]

/-- A node keeps its id when something below it is replaced. -/
theorem putAt_cons_eq_plan (h : x.putAt (i :: place) new = plan q) : ∃ p, x = plan p ∧ p.id = q.id := by
  cases x with
  | plan p =>
    cases h
    exact ⟨p, rfl, (Plan.id_refill _ _ _).symm⟩
  | expr e => cases h

/-- With different ids, the nodes that are neither inside nor above the place are still found, if what was put there has none
of their ids. -/
theorem SameBut.find?_id {p p' n : Plan} (h : SameBut place q r (plan p) (plan p')) (hp : p.DistinctIds) (hn : n ∈ p.nodes)
    (hinside : n ∉ q.nodes) (habove : q ∉ n.nodes) (hnew : n.id ∉ r.nodes.map Plan.id) : p'.find? n.id = some n := by
  obtain ⟨there, hthere⟩ := mem_nodes_iff.1 hn
  have houtside : ¬place <+: there := by
    rintro ⟨inner, rfl⟩
    rw [belowAt?_append, h.before] at hthere
    exact hinside (mem_nodes_iff.2 ⟨inner, hthere⟩)
  have hbeside : ¬there <+: place := by
    rintro ⟨inner, rfl⟩
    have hq := h.before
    rw [belowAt?_append, hthere] at hq
    exact habove (mem_nodes_iff.2 ⟨inner, hq⟩)
  have hkept : n ∈ p'.nodes := mem_nodes_iff.2 ⟨there, (h.apart there houtside hbeside).trans hthere⟩
  obtain ⟨m, hm⟩ := Plan.exists_find?_iff.2 (List.mem_map_of_mem hkept)
  obtain ⟨hmem, hid⟩ := Plan.mem_of_find? hm
  obtain ⟨spot, hspot⟩ := mem_nodes_iff.1 hmem
  suffices hmn : m = n by rw [hm, hmn]
  by_cases hin : place <+: spot
  · obtain ⟨inner, rfl⟩ := hin
    rw [belowAt?_append, h.after] at hspot
    exact absurd (hid ▸ List.mem_map_of_mem (mem_nodes_iff.2 ⟨inner, hspot⟩)) hnew
  by_cases hover : spot <+: place
  · -- a node above keeps its id, so it would be the node itself
    obtain ⟨_ | ⟨j, inner⟩, rfl⟩ := hover
    · exact absurd ⟨[], by rw [List.append_nil, List.append_nil]⟩ hin
    · have hchanged := h.above spot (j :: inner) rfl
      rw [hspot] at hchanged
      obtain ⟨y, hy, hput⟩ := Option.map_eq_some_iff.1 hchanged.symm
      obtain ⟨a, rfl, haid⟩ := putAt_cons_eq_plan hput
      have han : a = n := hp.eq_of_id_eq (mem_nodes_iff.2 ⟨spot, hy⟩) hn (haid.trans hid)
      have hq := h.before
      rw [belowAt?_append, hy, han] at hq
      exact absurd (mem_nodes_iff.2 ⟨_, hq⟩) habove
  · rw [h.apart spot hin hover] at hspot
    exact hp.eq_of_id_eq (mem_nodes_iff.2 ⟨spot, hspot⟩) hn hid

end Subject

end ClusterPlan
