import ClusterPlan.Binary64
import ClusterPlan.Catalog.Group
import ClusterPlan.Catalog.Index
import ClusterPlan.Catalog.Table
import ClusterPlan.Config
import ClusterPlan.Config.Text
import ClusterPlan.Context.Basic
import ClusterPlan.Context.Group
import ClusterPlan.Context.Table
import ClusterPlan.Cost
import ClusterPlan.Cost.Json
import ClusterPlan.DataType
import ClusterPlan.DataType.Json
import ClusterPlan.Decimal.Rounding
import ClusterPlan.Duplication.Plan
import ClusterPlan.Duplication.Session
import ClusterPlan.Error
import ClusterPlan.Error.Code
import ClusterPlan.Error.Json
import ClusterPlan.Error.TypeError
import ClusterPlan.Expr.Basic
import ClusterPlan.Expr.Evaluation
import ClusterPlan.Expr.Head
import ClusterPlan.Format.Datum
import ClusterPlan.Format.Declarations
import ClusterPlan.Format.Document
import ClusterPlan.Format.Serializer
import ClusterPlan.JoinKind
import ClusterPlan.Json
import ClusterPlan.Json.Number
import ClusterPlan.Json.Printer
import ClusterPlan.Json.Reader
import ClusterPlan.Json.Record
import ClusterPlan.Json.Serializer
import ClusterPlan.Physical
import ClusterPlan.Plan
import ClusterPlan.Plan.Aggregation
import ClusterPlan.Plan.Description
import ClusterPlan.Plan.Editing
import ClusterPlan.Plan.JoinTree
import ClusterPlan.Plan.Operator
import ClusterPlan.Plan.ParentIndex
import ClusterPlan.Plan.Search
import ClusterPlan.Plan.Substitution
import ClusterPlan.Plan.Summary
import ClusterPlan.Plan.Text
import ClusterPlan.Plan.Trace
import ClusterPlan.Plan.Traversal
import ClusterPlan.Proofs.Catalog.Ancestry
import ClusterPlan.Proofs.Catalog.Hierarchy
import ClusterPlan.Proofs.Context.Entity
import ClusterPlan.Proofs.Context.GroupEdits
import ClusterPlan.Proofs.Context.Grouped
import ClusterPlan.Proofs.Context.Growth
import ClusterPlan.Proofs.Context.Hanging
import ClusterPlan.Proofs.Context.Membership
import ClusterPlan.Proofs.Context.Mirror
import ClusterPlan.Proofs.Context.Operations
import ClusterPlan.Proofs.Context.Placing
import ClusterPlan.Proofs.Context.Registered
import ClusterPlan.Proofs.Context.Retirement
import ClusterPlan.Proofs.Context.SourceTables
import ClusterPlan.Proofs.Context.Tags
import ClusterPlan.Proofs.Context.Trees
import ClusterPlan.Proofs.Context.WellFormed
import ClusterPlan.Proofs.Cost.Saturation
import ClusterPlan.Proofs.Duplication.Ancestry
import ClusterPlan.Proofs.Duplication.Answers
import ClusterPlan.Proofs.Duplication.Calls
import ClusterPlan.Proofs.Duplication.Closure
import ClusterPlan.Proofs.Duplication.Confined
import ClusterPlan.Proofs.Duplication.Copies
import ClusterPlan.Proofs.Duplication.Courses
import ClusterPlan.Proofs.Duplication.Ending
import ClusterPlan.Proofs.Duplication.GroupCopies
import ClusterPlan.Proofs.Duplication.Growth
import ClusterPlan.Proofs.Duplication.Identity
import ClusterPlan.Proofs.Duplication.Invariant
import ClusterPlan.Proofs.Duplication.Isolation
import ClusterPlan.Proofs.Duplication.Issuing
import ClusterPlan.Proofs.Duplication.JoinTags
import ClusterPlan.Proofs.Duplication.JoinedTables
import ClusterPlan.Proofs.Duplication.Keeps
import ClusterPlan.Proofs.Duplication.LiveTags
import ClusterPlan.Proofs.Duplication.Membership
import ClusterPlan.Proofs.Duplication.Mirror
import ClusterPlan.Proofs.Duplication.Numbering
import ClusterPlan.Proofs.Duplication.OrderCopies
import ClusterPlan.Proofs.Duplication.ParentChains
import ClusterPlan.Proofs.Duplication.PlanCopy
import ClusterPlan.Proofs.Duplication.Renames
import ClusterPlan.Proofs.Duplication.Repeated
import ClusterPlan.Proofs.Duplication.Retirement
import ClusterPlan.Proofs.Duplication.Runs
import ClusterPlan.Proofs.Duplication.Session
import ClusterPlan.Proofs.Duplication.SessionRenaming
import ClusterPlan.Proofs.Duplication.Steps
import ClusterPlan.Proofs.Duplication.TableImages
import ClusterPlan.Proofs.Duplication.Tables
import ClusterPlan.Proofs.Duplication.Tending
import ClusterPlan.Proofs.Duplication.TreeCopy
import ClusterPlan.Proofs.Duplication.Visits
import ClusterPlan.Proofs.Expr.Casts
import ClusterPlan.Proofs.Expr.Constants
import ClusterPlan.Proofs.Expr.Equality
import ClusterPlan.Proofs.Expr.ReferencedTables
import ClusterPlan.Proofs.Expr.TextCasts
import ClusterPlan.Proofs.Format.Declarations
import ClusterPlan.Proofs.Format.RoundTrip
import ClusterPlan.Proofs.Format.Tables
import ClusterPlan.Proofs.Json.Serializing
import ClusterPlan.Proofs.Json.Spelling
import ClusterPlan.Proofs.Json.Writing
import ClusterPlan.Proofs.Plan.Aggregation
import ClusterPlan.Proofs.Plan.AggregationFailure
import ClusterPlan.Proofs.Plan.AggregationSplit
import ClusterPlan.Proofs.Plan.BottomUp
import ClusterPlan.Proofs.Plan.Changing
import ClusterPlan.Proofs.Plan.Comparisons
import ClusterPlan.Proofs.Plan.Describing
import ClusterPlan.Proofs.Plan.DescriptionText
import ClusterPlan.Proofs.Plan.Edits
import ClusterPlan.Proofs.Plan.Inputs
import ClusterPlan.Proofs.Plan.JoinTrees
import ClusterPlan.Proofs.Plan.LeafSubstitution
import ClusterPlan.Proofs.Plan.Leaves
import ClusterPlan.Proofs.Plan.Nodes
import ClusterPlan.Proofs.Plan.Ownership
import ClusterPlan.Proofs.Plan.Parents
import ClusterPlan.Proofs.Plan.Places
import ClusterPlan.Proofs.Plan.Printing
import ClusterPlan.Proofs.Plan.Putting
import ClusterPlan.Proofs.Plan.Refilling
import ClusterPlan.Proofs.Plan.Renaming
import ClusterPlan.Proofs.Plan.Rewriting
import ClusterPlan.Proofs.Plan.Subjects
import ClusterPlan.Proofs.Plan.Substituting
import ClusterPlan.Proofs.Plan.Targets
import ClusterPlan.Proofs.Plan.WalkLog
import ClusterPlan.Proofs.Plan.Walks
import ClusterPlan.Proofs.Scan.Building
import ClusterPlan.Proofs.Scan.CommonAncestor
import ClusterPlan.Proofs.Scan.Comparing
import ClusterPlan.Proofs.Scan.Counting
import ClusterPlan.Proofs.Scan.Directions
import ClusterPlan.Proofs.Scan.Grouping
import ClusterPlan.Proofs.Scan.Overlays
import ClusterPlan.Proofs.Scan.Renaming
import ClusterPlan.Proofs.Scan.RowOrder
import ClusterPlan.Proofs.Scan.Sortedness
import ClusterPlan.Proofs.Scan.Usefulness
import ClusterPlan.Proofs.Stepwise
import ClusterPlan.Proofs.Text.Blanks
import ClusterPlan.Proofs.Text.Numerals
import ClusterPlan.Proofs.Text.Quoting
import ClusterPlan.Ref
import ClusterPlan.Scan.Construction
import ClusterPlan.Scan.Consumption
import ClusterPlan.Scan.Order
import ClusterPlan.Snapshot.Catalog
import ClusterPlan.Snapshot.Context
import ClusterPlan.Snapshot.Error
import ClusterPlan.Snapshot.Physical
import ClusterPlan.Snapshot.Plan
import ClusterPlan.Snapshot.Value
import ClusterPlan.Text.Blank
import ClusterPlan.Text.Numeral
import ClusterPlan.Text.Quoted
import ClusterPlan.Text.Uppercase
import ClusterPlan.Toml
import ClusterPlan.Toml.Moment
import ClusterPlan.Toml.Reader
import ClusterPlan.Toml.Scalar
import ClusterPlan.Toml.Writer
import ClusterPlan.Value
import ClusterPlan.Workbench
import ClusterPlan.Workbench.Construction
import ClusterPlan.Workbench.Field
