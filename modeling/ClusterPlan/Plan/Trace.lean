import ClusterPlan.Plan.Traversal

/-!
# Traces of walks

A trace lists the calls of a walk. The answers of the visitor may depend on the call and on the name of the node or the text
of the expression.
-/

namespace ClusterPlan

/-- The calls of a visitor. -/
inductive VisitCall where
  | enter
  | leave
  | visit
  | enterExpr
  | leaveExpr
  | visitExpr
deriving DecidableEq

def VisitCall.name : VisitCall → String
  | enter => "enter"
  | leave => "leave"
  | visit => "visit"
  | enterExpr => "xenter"
  | leaveExpr => "xleave"
  | visitExpr => "xvisit"

/-- What happened in a walk. -/
structure VisitEvent where
  call : VisitCall
  /-- The name and the id of a node, or the text of an expression. -/
  subject : String

def VisitEvent.toText (e : VisitEvent) : String := e.call.name ++ " " ++ e.subject

/-- Notes each call, the last one in front, and gives the answer for it. -/
def tracer (answer : VisitCall → String → Bool) : Visitor (List VisitEvent) :=
  let node (call : VisitCall) (p : Plan) : StateM (List VisitEvent) Bool := do
    modify (⟨call, p.name ++ "@" ++ toString p.id⟩ :: ·)
    return answer call p.name
  let expr (call : VisitCall) (e : Expr) : StateM (List VisitEvent) Bool := do
    modify (⟨call, e.toText⟩ :: ·)
    return answer call e.toText
  { enter := node .enter, leave := node .leave, visit := node .visit
    enterExpr := expr .enterExpr, leaveExpr := expr .leaveExpr, visitExpr := expr .visitExpr }

/-- The events of a walk in their order, and its answer. -/
def trace (walk : StateM (List VisitEvent) Bool) : List VisitEvent × Bool :=
  let (answer, events) := walk.run []
  (events.reverse, answer)

end ClusterPlan
