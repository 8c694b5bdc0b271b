/-!
# Kinds of joins

Which input of a join may drive it, and which kinds have a counterpart with the inputs exchanged.
-/

namespace ClusterPlan

inductive JoinKind where
  | inner
  | left
  | right
  | fullOuter
  | semi
  | anti
  | semiInnerAlreadyDistinct
  | semiInnerIfDistinct
  | innerNeedDistinct
deriving DecidableEq

namespace JoinKind

/-- All kinds of joins. -/
def all : List JoinKind :=
  [inner, left, right, fullOuter, semi, anti, semiInnerAlreadyDistinct, semiInnerIfDistinct, innerNeedDistinct]

def toText : JoinKind → String
  | inner => "INNER"
  | left => "LEFT"
  | right => "RIGHT"
  | fullOuter => "FULL_OUTER"
  | semi => "SEMI"
  | anti => "ANTI"
  | semiInnerAlreadyDistinct => "SEMI_INNER_ALREADY_DISTINCT"
  | semiInnerIfDistinct => "SEMI_INNER_IF_DISTINCT"
  | innerNeedDistinct => "INNER_NEED_DISTINCT"

def isInner : JoinKind → Bool
  | inner | innerNeedDistinct => true
  | _ => false

def isOuter : JoinKind → Bool
  | left | right | fullOuter => true
  | _ => false

def isSemi : JoinKind → Bool
  | semi | semiInnerAlreadyDistinct | semiInnerIfDistinct => true
  | _ => false

/-- May the left input drive the join? -/
def isLeftLinear (k : JoinKind) : Bool := k.isInner || k.isSemi || k == left || k == anti

/-- May the right input drive the join? -/
def isRightLinear (k : JoinKind) : Bool := k.isInner || k == right

def isFullyLinear (k : JoinKind) : Bool := k.isLeftLinear && k.isRightLinear

/-- The kind of the same join with its inputs exchanged. A semi join or an anti join has none, nor has an inner join that
still has to remove repetitions. -/
def reversed? : JoinKind → Option JoinKind
  | inner => some inner
  | fullOuter => some fullOuter
  | left => some right
  | right => some left
  | _ => none

/-- Exchanging the inputs twice gives the join back. -/
theorem reversed?_reversed? {k k' : JoinKind} (h : k.reversed? = some k') : k'.reversed? = some k := by
  cases k <;> simp [reversed?] at h <;> subst h <;> rfl

end JoinKind

end ClusterPlan
