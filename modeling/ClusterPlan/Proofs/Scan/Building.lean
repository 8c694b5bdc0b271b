import ClusterPlan.Proofs.Duplication.Session
import ClusterPlan.Proofs.Duplication.Visits
import ClusterPlan.Proofs.Plan.Subjects
import ClusterPlan.Scan.Order

/-!
# How scans are built

A scan is made for an index, set up by its setters, intersected with another scan and copied. `Scan.Built` has all the scans
that this leads to in any order and to any depth, as far as the setters are used as is told. What a setter does is said once,
for a scan of one index and for an intersection (`Change.apply_single`, `Change.apply_intersect`).
-/

namespace ClusterPlan

open Duplication

namespace Scan

/-- A setter of a scan with what it is given. -/
inductive Change where
  | equality (es : List Expr)
  | addEquality (e : Expr)
  | addUnion (es : List Expr)
  | low (e : Expr) (inclusive : Bool)
  | high (e : Expr) (inclusive : Bool)
  | includeUnion (include? : Bool)
  | table (t : SourceId)
  | condition (c : ConditionId)
  | reverse (backwards : Bool)
  | covering (covers : Bool)
  | cost (estimate : Cost)
  | order (required : RequiredOrder)

/-- A setter that is refused leaves the scan as it was. -/
def settle (s : Scan) : Except PlanError Scan → Scan
  | .ok s' => s'
  | .error _ => s

namespace Change

def apply (s : Scan) : Change → Scan
  | equality es => s.settle (s.setEquality es)
  | addEquality e => s.settle (s.addEquality e)
  | addUnion es => s.settle (s.addUnion es)
  | low e inclusive => s.settle (s.setLow e inclusive)
  | high e inclusive => s.settle (s.setHigh e inclusive)
  | includeUnion include? => s.setIncludeUnion include?
  | table t => s.addTable t
  | condition c => s.addCondition c
  | reverse backwards => s.setReverse backwards
  | covering covers => s.setCovering covers
  | cost estimate => s.setCost estimate
  | order required => s.withOrder required

/-- The conditions that a setter adds. -/
def conditions : Change → List ConditionId
  | condition c => [c]
  | _ => []

end Change

/-- The scans that are built with setters that are allowed for the scans they are used on. -/
inductive Built (allowed : Scan → Change → Prop) : Scan → Prop where
  | ofIndex (ctx : Context) (id : Int) (index : Catalog.Index) (rootMost leafMost : SourceId) (ordering : List (Expr × Bool)) :
      Built allowed (ofIndex ctx id index rootMost leafMost ordering)
  | change {s : Scan} (c : Change) : Built allowed s → allowed s c → Built allowed (c.apply s)
  | intersect {output selector s : Scan} {supply' : Supply} (columns : Nat) (supply : Supply) :
      Built allowed output → Built allowed selector → intersect? output selector columns supply = .ok (s, supply') →
      Built allowed s
  | copy {s : Scan} {ctx : Context} {supply : Supply} {σ : Duplication} : Built allowed s → Reached ctx supply →
      Session ctx supply σ → (∀ ref, .entity ref ∈ s.mentions → σ.ctx.Has ref.2) → Built allowed (s.copy σ).1

/-! ## What setters do -/

namespace Change

/-- A change keeps a scan of one index one, and adds its conditions to those of the scan. -/
theorem apply_single (c : Change) (head : ScanHead) (x : SingleScan Expr) :
    ∃ head' x', c.apply (.single head x) = .single head' x' ∧
      head'.conditions = appendNew head.conditions c.conditions := by
  cases c <;> exact ⟨_, _, rfl, rfl⟩

/-- Of the scans of an intersection a setter changes only whether the disjunctions count. -/
theorem apply_intersect (c : Change) (head : ScanHead) (n : Nat) (output selector : Scan) :
    (∃ include?, c = .includeUnion include? ∧ c.apply (.intersect head n output selector) =
      .intersect head n (output.setIncludeUnion include?) (selector.setIncludeUnion include?)) ∨
    (∃ head', (∀ include?, c ≠ .includeUnion include?) ∧
      c.apply (.intersect head n output selector) = .intersect head' n output selector ∧
      head'.conditions = appendNew head.conditions c.conditions) := by
  cases c with
  | includeUnion include? => exact .inl ⟨include?, rfl, rfl⟩
  | _ => exact .inr ⟨_, nofun, rfl, rfl⟩

end Change

/-- An intersection compares at least one column and at most as many as both of its scans have behind the equalities. -/
theorem intersect?_ok {output selector s : Scan} {columns : Nat} {supply supply' : Supply}
    (h : intersect? output selector columns supply = .ok (s, supply')) :
    (1 ≤ columns ∧ columns ≤ output.freeCount ∧ columns ≤ selector.freeCount) ∧
      ∃ head, s = .intersect head columns output selector ∧
        head.conditions = appendNew output.head.conditions selector.head.conditions := by
  unfold intersect? at h
  split at h
  · cases h
  · rename_i hcolumns
    simp only [not_or, Nat.not_lt] at hcolumns
    simp only [Except.ok.injEq, Prod.mk.injEq] at h
    exact ⟨⟨Nat.one_le_iff_ne_zero.2 hcolumns.1, hcolumns.2⟩, _, h.1.symm, rfl⟩

end Scan

end ClusterPlan
