import ClusterPlan.Error.Json
import ClusterPlan.Json

/-!
# Snapshots of errors
-/

namespace ClusterPlan

/-- The name of a kind of errors. -/
def PlanError.kindName : PlanError → String
  | internal _ => "Internal"
  | unsupported _ => "Unsupported"
  | visit _ => "Visit"
  | type (.invalidLiteral _ _) => "InvalidLiteral"
  | type (.incompatibleCast _ _) => "IncompatibleCast"
  | collaborator _ => "Collaborator"
  | config _ => "Config"

def PlanError.snapshot (e : PlanError) : Json := .record [("error", .text e.kindName), ("message", .text e.message)]

/-- A result, or the error in its place. -/
def exceptSnapshot {α : Type} (f : α → Json) : Except PlanError α → Json
  | .ok a => f a
  | .error e => e.snapshot

/-- An error with what a client is told of it. -/
def PlanError.publicSnapshot (e : PlanError) : Json :=
  let shown := e.toPublic
  .record [("kind", .text e.kindName), ("text", .text e.message), ("internal", .bool e.isInternal),
    ("public", shown.toJson), ("category", .text shown.code.category.name), ("code", .nat shown.code.number)]

def ErrorCode.snapshot (c : ErrorCode) : Json :=
  .record [("code", .nat c.number), ("category", .text c.category.name), ("message", .text c.defaultMessage),
    ("text", .text c.toText), ("json", c.toJson), ("public", (PublicError.ofCode c).toJson),
    ("default", .bool (c == default))]

end ClusterPlan
