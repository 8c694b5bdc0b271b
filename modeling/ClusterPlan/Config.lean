/-!
# Settings

`Properties` are free texts by name, kept in the order of their names. `Config` holds the settings of the log and of the
planner.
-/

namespace ClusterPlan

/-- Texts by name, in the order of the names, each name at most once. -/
structure Properties where
  entries : List (String × String) := []
deriving DecidableEq

namespace Properties

def get? (p : Properties) (name : String) : Option String := p.entries.lookup name

/-- Puts a name at its place among sorted entries, in place of the entry that has it. -/
def insertEntry (name value : String) : List (String × String) → List (String × String)
  | [] => [(name, value)]
  | entry :: entries =>
    if name = entry.1 then (name, value) :: entries
    else if name < entry.1 then (name, value) :: entry :: entries
    else entry :: insertEntry name value entries

/-- Gives a name a text. -/
def insert (p : Properties) (name value : String) : Properties := ⟨insertEntry name value p.entries⟩

end Properties

structure LogConfig where
  level : String := "info"
  dir : String := "logs"
  file : String := "sqlplan"
  maxFileSize : UInt64 := 104857600
  maxFiles : UInt64 := 5
deriving DecidableEq

structure PlannerConfig where
  /-- Do the columns of an expanded disjunction count among the equality columns of a new index scan? -/
  includeUnion : Bool := false
  /-- The spaces for each level of a plan text. -/
  indent : UInt64 := 2
  properties : Properties := {}
deriving DecidableEq

structure Config where
  log : LogConfig := {}
  planner : PlannerConfig := {}
deriving DecidableEq

end ClusterPlan
