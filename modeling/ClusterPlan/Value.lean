import ClusterPlan.Text.Blank
import ClusterPlan.Text.Numeral
import ClusterPlan.Error.TypeError

/-!
# Constant values and their casts

`Value.cast` converts a constant to a data type. A null stays null whatever the target; text is read with the blanks
around it left out, and a failure names the text as it was written.
-/

namespace ClusterPlan

/-- A constant. Floating-point numbers are equal when their bits are. -/
inductive Value where
  | null
  | bool (b : Bool)
  | int (i : Int64)
  | double (d : Binary64)
  | string (s : String)
deriving DecidableEq

namespace Value

def isNull : Value → Bool
  | null => true
  | _ => false

/-- The text of a constant; strings stand between single quotes and nothing in them is escaped. -/
def toText : Value → String
  | null => "NULL"
  | bool true => "true"
  | bool false => "false"
  | int i => toString i.toInt
  | double d => d.toText
  | string s => "'" ++ s ++ "'"

/-- The truth value that a text names, in any letter case. -/
def readBool? (s : String) : Option Bool :=
  let word := s.toList.map Char.toLower
  if word = "true".toList then some true
  else if word = "false".toList then some false
  else none

/-- The value of a text that is read by `read?`, or the complaint that it cannot be. -/
def ofLiteral (target : DataType) (literal : String) : Option Value → Except TypeError Value
  | some v => .ok v
  | none => .error (.invalidLiteral literal target)

/-- A constant converted to a data type. The length of a varying string and the places of a decimal are not enforced. -/
def cast (v : Value) (target : DataType) : Except TypeError Value :=
  let incompatible : Except TypeError Value := .error (.incompatibleCast v.toText target)
  match v with
  | null => .ok null
  | v =>
    match target with
    | .null => .ok null
    | .boolean =>
      match v with
      | bool b => .ok (bool b)
      | string s => ofLiteral target s ((readBool? s).map bool)
      | _ => incompatible
    | .int | .bigInt =>
      match v with
      | int i => .ok (int i)
      | double d => .ok (int d.truncate)
      | string s => ofLiteral target s ((Text.readInt64? (Text.trim s.toList)).map int)
      | _ => incompatible
    | .double | .decimal _ _ =>
      match v with
      | int i => .ok (double (Binary64.ofInt i.toInt))
      | double d => .ok (double d)
      | string s => ofLiteral target s ((Text.readReal? (Text.trim s.toList)).map double)
      | _ => incompatible
    | .varchar _ => .ok (string v.toText)
    | .date | .timestamp =>
      match v with
      | string s => .ok (string s)
      | _ => incompatible

end Value

end ClusterPlan
