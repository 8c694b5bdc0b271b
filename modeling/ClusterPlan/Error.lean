import ClusterPlan.Error.TypeError
import ClusterPlan.JoinKind

/-!
# Errors of the planner

`Violation` lists the broken invariants that stop a compilation, `PlanError` all kinds of errors; `Violation.message` and
`PlanError.message` hold the wording.
-/

namespace ClusterPlan

/-- The part of an aggregation that is gone once its operands have been split off. -/
inductive AggregatePart where
  | groupBy
  | aggregateFields
  | functions
deriving DecidableEq

def AggregatePart.toText : AggregatePart → String
  | groupBy => "分组表达式"
  | aggregateFields => "聚合表达式"
  | functions => "聚合函数"

/-- The part of an index scan that an intersection does not have. -/
inductive ScanPart where
  | equality
  | union
  | low
  | high
deriving DecidableEq

def ScanPart.toText : ScanPart → String
  | equality => "设置等值比较值"
  | union => "设置 OR 展开列"
  | low => "设置范围下界"
  | high => "设置范围上界"

/-- A broken invariant of the planner. -/
inductive Violation where
  | other (message : String)
  | irreversibleJoin (kind : JoinKind)
  | unrelatedGroupJoin (join parent child : String)
  | goneAfterSplit (id : Int) (part : AggregatePart)
  | groupByAfterAggregates (id : Int)
  | noSuchField (id : Int) (position : Nat)
  | notSplit (id : Int)
  | alreadySplit (id : Int)
  | fieldNotAggregate (id : Int)
  | notTableStatus (id : Int)
  | comparedColumns (columns output selector : Nat)
  | intersectionPart (id : Int) (part : ScanPart)
deriving DecidableEq

namespace Violation

/-- The name of an aggregation in messages. -/
def aggregation (id : Int) : String := "AggregateSource@" ++ toString id

def message : Violation → String
  | other message => message
  | irreversibleJoin kind => "无法反转 " ++ kind.toText ++ " 连接"
  | unrelatedGroupJoin join parent child => "组连接 " ++ join ++ " 不连接 " ++ parent ++ " 与 " ++ child
  | goneAfterSplit id part => aggregation id ++ " 已经拆分，不能访问" ++ part.toText
  | groupByAfterAggregates id => aggregation id ++ " 已登记聚合函数，不能再追加分组表达式"
  | noSuchField id position => aggregation id ++ " 没有第 " ++ toString position ++ " 个字段"
  | notSplit id => aggregation id ++ " 尚未拆分"
  | alreadySplit id => aggregation id ++ " 已经拆分"
  | fieldNotAggregate id => aggregation id ++ " 的聚合字段不是聚合函数"
  | notTableStatus id => aggregation id ++ " 的实现方式不是 COUNT_TABLE_STATUS"
  | comparedColumns columns output selector =>
    "索引交集的比较列数 " ++ toString columns ++ " 无效 (输出扫描可用 " ++ toString output ++ "，选择扫描可用 " ++
      toString selector ++ ")"
  | intersectionPart id part => "索引交集 " ++ toString id ++ " 不能直接" ++ part.toText

end Violation

/-- An error of the planner. -/
inductive PlanError where
  /-- A broken invariant: a defect of the planner itself. -/
  | internal (cause : Violation)
  /-- A construct that reached a stage where nothing handles it. -/
  | unsupported (message : String)
  | visit (message : String)
  | type (cause : TypeError)
  /-- An error of the catalog or of the execution layer. -/
  | collaborator (message : String)
  | config (message : String)
deriving DecidableEq

namespace PlanError

def isInternal : PlanError → Bool
  | internal _ => true
  | _ => false

/-- The text of an error. A failed conversion shows its own text. -/
def message : PlanError → String
  | internal cause => "内部错误: " ++ cause.message
  | unsupported message => "不支持的操作: " ++ message
  | visit message => "计划节点访问错误: " ++ message
  | type cause => cause.message
  | collaborator message => "外部组件错误: " ++ message
  | config message => "配置错误: " ++ message

end PlanError

end ClusterPlan
