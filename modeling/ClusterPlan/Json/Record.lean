import ClusterPlan.Json.Number

/-!
# Records and alternatives in JSON

A record is an object with named fields, in any order and among others that are not looked at, or an array of the values
of the fields in their order. An alternative is its name, or an object with its name as the only field and its content as
the value.
-/

namespace ClusterPlan

/-- What a record holds in the place of one of its fields. -/
inductive JsonField where
  | missing
  | value (j : Json)

namespace JsonField

/-- The content of a field that has to be there. -/
def required (f : JsonField) (read : Json → Option α) : Option α :=
  match f with
  | missing => none
  | value j => read j

end JsonField

namespace Json

/-- The only value of a name, if the name does not come twice. -/
def fieldNamed? (fields : List (String × Json)) (name : String) : Option JsonField :=
  match fields.filter fun field => field.1 == name with
  | [] => some .missing
  | [(_, j)] => some (.value j)
  | _ => none

/-- The fields of a record with the given names. -/
def fields? (names : List String) : Json → Option (List JsonField)
  | object fields => do
    let fields ← fields.mapM fun (name, j) => (unquote? name).map fun name => (name, j)
    names.mapM (fieldNamed? fields)
  | array items => if items.length = names.length then some (items.map .value) else none
  | _ => none

/-- The name of an alternative, and its content where it is written with one. -/
def alternative? : Json → Option (String × Option Json)
  | string quoted => (unquote? quoted).map fun name => (name, none)
  | object [(name, content)] => (unquote? name).map fun name => (name, some content)
  | _ => none

end Json

end ClusterPlan
