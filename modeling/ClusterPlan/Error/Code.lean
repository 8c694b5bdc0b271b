import ClusterPlan.Error

/-!
# Error codes for clients

A code is a category in its hundreds and an error below them. `PlanError.toPublic` says what a client is told: the text of
an internal error stays inside.
-/

namespace ClusterPlan

inductive ErrorCategory where
  | success
  | execution
  | validation
  | system
  | unknown
deriving DecidableEq

/-- The name of a category. -/
def ErrorCategory.name : ErrorCategory → String
  | success => "Success"
  | execution => "Execution"
  | validation => "Validation"
  | system => "System"
  | unknown => "Unknown"

inductive ErrorCode where
  | success
  | executionError
  | unsupported
  | typeError
  | invalidInput
  | internalError
  | unknown
deriving DecidableEq

namespace ErrorCode

/-- All codes. -/
def all : List ErrorCode :=
  [success, executionError, unsupported, typeError, invalidInput, internalError, unknown]

def number : ErrorCode → Nat
  | success => 0
  | executionError => 200
  | unsupported => 205
  | typeError => 301
  | invalidInput => 302
  | internalError => 900
  | unknown => 999

/-- The code with the given number. -/
def ofNumber? (n : Int) : Option ErrorCode := all.find? fun c => (c.number : Int) == n

/-- The name of a code. -/
def name : ErrorCode → String
  | success => "Success"
  | executionError => "ExecutionError"
  | unsupported => "Unsupported"
  | typeError => "TypeError"
  | invalidInput => "InvalidInput"
  | internalError => "InternalError"
  | unknown => "Unknown"

/-- The category that the hundreds of a code stand for. -/
def category (c : ErrorCode) : ErrorCategory :=
  if c.number = 0 then .success
  else match c.number / 100 with
    | 2 => .execution
    | 3 => .validation
    | 9 => .system
    | _ => .unknown

def defaultMessage : ErrorCode → String
  | success => "成功"
  | executionError => "执行错误"
  | unsupported => "功能不支持"
  | typeError => "类型错误"
  | invalidInput => "无效输入"
  | internalError => "内部错误"
  | unknown => "未知错误"

def toText (c : ErrorCode) : String := toString c.number ++ " (" ++ c.defaultMessage ++ ")"

instance : Inhabited ErrorCode := ⟨success⟩

/-- A number finds the code that has it. -/
theorem ofNumber?_number (c : ErrorCode) : ofNumber? c.number = some c := by
  cases c <;> rfl

end ErrorCode

/-- What a client is told about an error. -/
structure PublicError where
  code : ErrorCode
  message : String
deriving DecidableEq

/-- A code with its own message. -/
def PublicError.ofCode (code : ErrorCode) : PublicError := ⟨code, code.defaultMessage⟩

def TypeError.toPublic (e : TypeError) : PublicError :=
  match e with
  | invalidLiteral _ _ => ⟨.invalidInput, e.message⟩
  | incompatibleCast _ _ => ⟨.typeError, e.message⟩

/-- What a client is told: a defect of the planner shows no detail, everything else its own message. -/
def PlanError.toPublic : PlanError → PublicError
  | internal _ | visit _ => .ofCode .internalError
  | unsupported message => ⟨.unsupported, message⟩
  | type cause => cause.toPublic
  | collaborator message => ⟨.executionError, message⟩
  | config message => ⟨.invalidInput, message⟩

end ClusterPlan
