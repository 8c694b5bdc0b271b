import ClusterPlan.Proofs.Plan.Subjects
import Mathlib.Logic.Relation

/-!
# Events of a walk

`Walk` says which events a walk may have, clause by clause: a leaf is visited; any other subject is entered and left, and
between the two there is nothing if it was entered in vain, and else the walks of what lies below it, up to the first that
ends with `false`. What a reader of the events relies on follows from it (`Walk.protocol`): the events are well bracketed, and
between an enter and the leave that belongs to it there are events of what lies below only.
-/

namespace ClusterPlan

/-- A call of a visitor, and its answer. -/
inductive WalkEvent where
  | enter (x : Subject) (answer : Bool)
  | leave (x : Subject) (answer : Bool)
  | visit (x : Subject) (answer : Bool)

namespace WalkEvent

def subject : WalkEvent → Subject
  | enter x _ | leave x _ | visit x _ => x

def answer : WalkEvent → Bool
  | enter _ b | leave _ b | visit _ b => b

def isVisit : WalkEvent → Bool
  | visit _ _ => true
  | enter _ _ | leave _ _ => false

end WalkEvent

/-! ## Brackets -/

/-- The subjects that are open before and after some events: what is entered is open until it is left, and only what was
entered last can be left. -/
inductive Opens : List Subject → List WalkEvent → List Subject → Prop where
  | nil {opened : List Subject} : Opens opened [] opened
  | enter {x : Subject} {b : Bool} {opened after : List Subject} {events : List WalkEvent} :
      Opens (x :: opened) events after → Opens opened (.enter x b :: events) after
  | leave {x : Subject} {b : Bool} {opened after : List Subject} {events : List WalkEvent} :
      Opens opened events after → Opens (x :: opened) (.leave x b :: events) after
  | visit {x : Subject} {b : Bool} {opened after : List Subject} {events : List WalkEvent} :
      Opens opened events after → Opens opened (.visit x b :: events) after

/-- All that is entered is left, in the opposite order, and nothing else is left. -/
def WellBracketed (events : List WalkEvent) : Prop := Opens [] events []

section Brackets

variable {opened opened' after : List Subject} {events more : List WalkEvent}

/-- Events that open and close subjects may be followed by others. -/
theorem Opens.append (h : Opens opened events opened') (hmore : Opens opened' more after) :
    Opens opened (events ++ more) after := by
  induction h with
  | nil => exact hmore
  | enter _ ih => exact .enter (ih hmore)
  | leave _ ih => exact .leave (ih hmore)
  | visit _ ih => exact .visit (ih hmore)

/-- What is open after some events does not depend on what comes next. -/
theorem Opens.of_append (h : Opens opened (events ++ more) after) (hevents : Opens opened events opened') :
    Opens opened' more after := by
  induction hevents with
  | nil => exact h
  | enter _ ih => cases h with | enter h => exact ih h
  | leave _ ih => cases h with | leave h => exact ih h
  | visit _ ih => cases h with | visit h => exact ih h

/-- There is only one place at which what was entered before well bracketed events can be left. -/
theorem WellBracketed.eq_of_leave {between between' rest rest' : List WalkEvent} {x y : Subject} {b c : Bool}
    (h : WellBracketed between) (h' : WellBracketed between')
    (heq : between ++ .leave x b :: rest = between' ++ .leave y c :: rest') : between = between' := by
  -- the shorter of the two would leave a subject with nothing open
  have hshort : ∀ {short long : List WalkEvent} {x : Subject} {b : Bool} {w : List WalkEvent}, WellBracketed short →
      long = short ++ .leave x b :: w → ¬WellBracketed long := by
    rintro short long x b w hs rfl hl
    cases hl.of_append hs
  rcases List.append_eq_append_iff.1 heq with ⟨w, hw, hrest⟩ | ⟨w, hw, hrest⟩
  · cases w with
    | nil => rw [hw, List.append_nil]
    | cons e w =>
      obtain ⟨rfl, -⟩ := List.cons.inj hrest
      exact absurd h' (hshort h hw)
  · cases w with
    | nil => rw [hw, List.append_nil]
    | cons e w =>
      obtain ⟨rfl, -⟩ := List.cons.inj hrest
      exact absurd h (hshort h' hw)

end Brackets

/-! ## Walks -/

section Walks

variable (below : Subject → List Subject)

mutual

/-- The events and the answer of a walk through a subject. -/
inductive Walk : Subject → List WalkEvent → Bool → Prop where
  | visited {x : Subject} {b : Bool} : x.isLeaf → Walk x [.visit x b] b
  | refused {x : Subject} {b : Bool} : ¬x.isLeaf → Walk x [.enter x false, .leave x b] b
  | entered {x : Subject} {events : List WalkEvent} {go b : Bool} :
      ¬x.isLeaf → Walks (below x) events go → Walk x (.enter x true :: (events ++ [.leave x b])) b

/-- The events of walks through subjects one after the other, and whether all of them ended with `true`; the first one that
does not is the last one. -/
inductive Walks : List Subject → List WalkEvent → Bool → Prop where
  | nil : Walks [] [] true
  | stopped {x : Subject} {xs : List Subject} {events : List WalkEvent} : Walk x events false → Walks (x :: xs) events false
  | cons {x : Subject} {xs : List Subject} {events more : List WalkEvent} {go : Bool} :
      Walk x events true → Walks xs more go → Walks (x :: xs) (events ++ more) go

end

/-- A subject lies somewhere below another one. -/
def Beneath : Subject → Subject → Prop := Relation.TransGen fun y x => y ∈ below x

end Walks

section Consequences

variable {below : Subject → List Subject} {x : Subject} {xs : List Subject} {events : List WalkEvent} {b : Bool}

mutual

/-- A walk closes all that it opens. -/
theorem Walk.opens {x : Subject} {events : List WalkEvent} {b : Bool} (opened : List Subject) :
    Walk below x events b → Opens opened events opened
  | .visited _ => .visit .nil
  | .refused _ => .enter (.leave .nil)
  | .entered _ h => .enter ((h.opens _).append (.leave .nil))

theorem Walks.opens {xs : List Subject} {events : List WalkEvent} {b : Bool} (opened : List Subject) :
    Walks below xs events b → Opens opened events opened
  | .nil => .nil
  | .stopped h => h.opens opened
  | .cons h hs => (h.opens opened).append (hs.opens opened)

end

mutual

/-- Every event is a visit of a leaf, or the enter or leave of something else. -/
theorem Walk.isVisit_eq {x : Subject} {events : List WalkEvent} {b : Bool} :
    Walk below x events b → ∀ e ∈ events, e.isVisit = e.subject.isLeaf
  | .visited hx => List.forall_mem_singleton.2 hx.symm
  | .refused hx => by
    have hinner : x.isLeaf = false := Bool.eq_false_iff.2 hx
    exact List.forall_mem_cons.2 ⟨hinner.symm, List.forall_mem_singleton.2 hinner.symm⟩
  | .entered hx h => by
    have hinner : x.isLeaf = false := Bool.eq_false_iff.2 hx
    exact List.forall_mem_cons.2 ⟨hinner.symm, List.forall_mem_append.2 ⟨h.isVisit_eq, List.forall_mem_singleton.2 hinner.symm⟩⟩

/-- Leaves are visited, and all else is entered and left. -/
theorem Walks.isVisit_eq {xs : List Subject} {events : List WalkEvent} {b : Bool} :
    Walks below xs events b → ∀ e ∈ events, e.isVisit = e.subject.isLeaf
  | .nil => fun _ he => absurd he List.not_mem_nil
  | .stopped h => h.isVisit_eq
  | .cons h hs => List.forall_mem_append.2 ⟨h.isVisit_eq, hs.isVisit_eq⟩

end

mutual

/-- A walk only comes to what lies below its subject. -/
theorem Walk.reflTransGen {x : Subject} {events : List WalkEvent} {b : Bool} :
    Walk below x events b → ∀ e ∈ events, Relation.ReflTransGen (fun z y => z ∈ below y) e.subject x
  | .visited _ => List.forall_mem_singleton.2 .refl
  | .refused _ => List.forall_mem_cons.2 ⟨.refl, List.forall_mem_singleton.2 .refl⟩
  | .entered _ h => by
    refine List.forall_mem_cons.2 ⟨.refl, List.forall_mem_append.2 ⟨?_, List.forall_mem_singleton.2 .refl⟩⟩
    intro e he
    obtain ⟨y, hy, hbelow⟩ := h.reflTransGen e he
    exact hbelow.tail hy

/-- Walks only come to what lies below one of their subjects. -/
theorem Walks.reflTransGen {xs : List Subject} {events : List WalkEvent} {b : Bool} :
    Walks below xs events b → ∀ e ∈ events, ∃ x ∈ xs, Relation.ReflTransGen (fun z y => z ∈ below y) e.subject x
  | .nil => fun _ he => absurd he List.not_mem_nil
  | .stopped h => fun e he => ⟨_, List.mem_cons_self, h.reflTransGen e he⟩
  | .cons h hs => by
    refine List.forall_mem_append.2 ⟨?_, ?_⟩
    · intro e he
      exact ⟨_, List.mem_cons_self, h.reflTransGen e he⟩
    · intro e he
      obtain ⟨x, hx, hbelow⟩ := hs.reflTransGen e he
      exact ⟨x, List.mem_cons_of_mem _ hx, hbelow⟩

end

/-- Between the enter and the leave of a subject a walk is properly beneath it. -/
theorem Walks.beneath (h : Walks below (below x) events b) : ∀ e ∈ events, Beneath below e.subject x := by
  intro e he
  obtain ⟨y, hy, hbelow⟩ := h.reflTransGen e he
  exact Relation.TransGen.tail' hbelow hy

/-- An element of two lists one behind the other stands in the second one or in the first one. -/
theorem exists_of_append_eq_append_cons {α : Type} {as bs before after : List α} {a : α}
    (h : as ++ bs = before ++ a :: after) :
    (∃ w, before = as ++ w ∧ bs = w ++ a :: after) ∨ ∃ w, as = before ++ a :: w ∧ after = w ++ bs := by
  rcases List.append_eq_append_iff.1 h with ⟨w, hw, hbs⟩ | ⟨w, hw, hbs⟩
  · exact Or.inl ⟨w, hw, hbs⟩
  · cases w with
    | nil => exact Or.inl ⟨[], by rw [hw, List.append_nil, List.append_nil], hbs.symm⟩
    | cons c w =>
      obtain ⟨rfl, hafter⟩ := List.cons.inj hbs
      exact Or.inr ⟨w, hw, hafter⟩

mutual

/-- What is entered somewhere in a walk is walked through from there to a leave of it. -/
theorem Walk.of_enter {x y : Subject} {events before after : List WalkEvent} {b entered : Bool} :
    Walk below x events b → events = before ++ .enter y entered :: after →
      ∃ between left rest, after = between ++ .leave y left :: rest ∧
        Walk below y (.enter y entered :: (between ++ [.leave y left])) left
  | .visited _, heq => by
    rcases before with _ | ⟨e, before⟩
    · cases heq
    · simp at heq
  | .refused hx, heq => by
    rcases before with _ | ⟨e, _ | ⟨e', before⟩⟩
    · cases heq
      exact ⟨[], b, [], rfl, .refused hx⟩
    · cases heq
    · simp at heq
  | .entered hx h, heq => by
    rcases before with _ | ⟨e, before⟩
    · cases heq
      exact ⟨_, b, [], rfl, .entered hx h⟩
    · rw [List.cons_append] at heq
      rcases exists_of_append_eq_append_cons (List.cons.inj heq).2 with ⟨w, -, hlast⟩ | ⟨w, hw, hafter⟩
      · rcases w with _ | ⟨e', w⟩
        · cases hlast
        · simp at hlast
      · obtain ⟨between, left, rest, hsplit, hwalk⟩ := h.of_enter hw
        exact ⟨between, left, rest ++ [.leave x b], by rw [hafter, hsplit, List.append_assoc, List.cons_append], hwalk⟩

/-- What is entered in a walk is left in it, and in between lies the walk of what was entered. -/
theorem Walks.of_enter {xs : List Subject} {y : Subject} {events before after : List WalkEvent} {b entered : Bool} :
    Walks below xs events b → events = before ++ .enter y entered :: after →
      ∃ between left rest, after = between ++ .leave y left :: rest ∧
        Walk below y (.enter y entered :: (between ++ [.leave y left])) left
  | .nil, heq => by simp at heq
  | .stopped h, heq => h.of_enter heq
  | .cons h hs, heq => by
    rcases exists_of_append_eq_append_cons heq with ⟨w, -, hmore⟩ | ⟨w, hw, hafter⟩
    · exact hs.of_enter hmore
    · obtain ⟨between, left, rest, hsplit, hwalk⟩ := h.of_enter hw
      exact ⟨between, left, rest ++ _, by rw [hafter, hsplit, List.append_assoc, List.cons_append], hwalk⟩

end

end Consequences

/-! ## The protocol -/

/-- What stands between the enter of a subject and the leave that belongs to it. -/
structure Enclosed (below : Subject → List Subject) (x : Subject) (entered : Bool) (between : List WalkEvent) : Prop where
  bracketed : WellBracketed between
  beneath : ∀ e ∈ between, Beneath below e.subject x
  /-- Nothing, if the enter was answered with `false`. -/
  refused : entered = false → between = []
  /-- Else walks through what lies below, none of them after one that ended with `false`. -/
  walks : entered = true → ∃ go, Walks below (below x) between go

/-- What a reader of the events of a walk through a subject relies on. -/
structure Protocol (below : Subject → List Subject) (x : Subject) (events : List WalkEvent) (answer : Bool) : Prop where
  bracketed : WellBracketed events
  /-- Leaves are visited, other subjects are entered and left. -/
  isVisit : ∀ e ∈ events, e.isVisit = e.subject.isLeaf
  leaf : x.isLeaf → events = [.visit x answer]
  inner : ¬x.isLeaf → ∃ entered between, events = .enter x entered :: (between ++ [.leave x answer])
  /-- To each enter there belongs a leave of the same subject, and no other one. -/
  left : ∀ before y entered after, events = before ++ .enter y entered :: after →
    ∃ between answer rest, after = between ++ .leave y answer :: rest ∧ Enclosed below y entered between ∧
      ∀ between' z answer' rest', after = between' ++ .leave z answer' :: rest' → WellBracketed between' → between' = between

section Protocol

variable {below : Subject → List Subject} {x : Subject} {between events : List WalkEvent} {entered b : Bool}

/-- What a subject encloses is what its walk does between entering and leaving. -/
theorem Walk.enclosed (h : Walk below x (.enter x entered :: (between ++ [.leave x b])) b) :
    Enclosed below x entered between := by
  have hbetween : entered = false ∧ between = [] ∨ entered = true ∧ ∃ go, Walks below (below x) between go := by
    generalize heq : WalkEvent.enter x entered :: (between ++ [.leave x b]) = events at h
    cases h with
    | visited _ => cases heq
    | refused _ =>
      obtain ⟨hfirst, hrest⟩ := List.cons.inj heq
      cases hfirst
      exact Or.inl ⟨rfl, List.append_left_eq_self.1 hrest⟩
    | @entered _ inner go _ _ hinner =>
      obtain ⟨hfirst, hrest⟩ := List.cons.inj heq
      cases hfirst
      obtain ⟨rfl, -⟩ := List.append_inj' hrest rfl
      exact Or.inr ⟨rfl, go, hinner⟩
  rcases hbetween with ⟨rfl, rfl⟩ | ⟨rfl, go, hwalks⟩
  · exact ⟨.nil, fun _ he => absurd he List.not_mem_nil, fun _ => rfl, fun h => absurd h Bool.false_ne_true⟩
  · exact ⟨hwalks.opens _, hwalks.beneath, fun h => absurd h.symm Bool.false_ne_true, fun _ => ⟨go, hwalks⟩⟩

/-- Every walk keeps to the protocol. -/
theorem Walk.protocol (h : Walk below x events b) : Protocol below x events b := by
  refine ⟨h.opens _, h.isVisit_eq, ?_, ?_, ?_⟩
  · intro hx
    cases h with
    | visited _ => rfl
    | refused hinner => exact absurd hx hinner
    | entered hinner _ => exact absurd hx hinner
  · intro hx
    cases h with
    | visited hleaf => exact absurd hleaf hx
    | refused _ => exact ⟨false, [], rfl⟩
    | entered _ _ => exact ⟨true, _, rfl⟩
  · intro before y entered after heq
    obtain ⟨between, answer, rest, hafter, hwalk⟩ := h.of_enter heq
    refine ⟨between, answer, rest, hafter, hwalk.enclosed, ?_⟩
    intro between' z answer' rest' hafter' hbracketed
    exact hbracketed.eq_of_leave hwalk.enclosed.bracketed (hafter'.symm.trans hafter)

end Protocol

end ClusterPlan
