import ClusterPlan.Config
import ClusterPlan.Toml.Writer

/-!
# Settings as a text

`Config.load` reads settings from a TOML text, in which every setting may be missing and other keys are not looked at;
`Config.save` writes all settings in their order.
-/

namespace ClusterPlan

/-- Why settings cannot be loaded. -/
inductive LoadError where
  /-- There is no text. -/
  | missing
  /-- The text is no TOML document, or a setting has a value of another kind. -/
  | malformed
  | noIndent
deriving DecidableEq

def LoadError.message : LoadError → String
  | missing => "no such file"
  | malformed => "malformed settings"
  | noIndent => "plan_dump_indent 必须大于 0"

namespace Toml

/-- The name under which a moment stands where fields with names are read. -/
def momentKey : String := "$__toml_private_datetime"

/-- The fields of a table. A moment reads as a table, too: its text is the only field. -/
def namedFields? : Toml → Option (List (String × Toml))
  | table _ fields => some fields
  | moment m => some [(momentKey, string m.toText)]
  | _ => none

/-- What a record has under the name or at the place of each of its fields. A record is a table or an array. What a table
has besides must be readable, what an array has behind the last field is not looked at. -/
def fieldsOf? (names : List String) (t : Toml) : Option (List (Option Toml)) :=
  match t.namedFields?, t with
  | some fields, _ =>
    if fieldsReadable (fields.filter fun field => !names.contains field.1) then
      some (names.map fun name => fields.lookup name)
    else none
  | none, array items => some (names.zipIdx.map fun (_, i) => items[i]?)
  | none, tables items => some (names.zipIdx.map fun (_, i) => items.reverse[i]?)
  | none, _ => none

def string? : Toml → Option String
  | string s => some s
  | _ => none

def boolean? : Toml → Option Bool
  | boolean b => some b
  | _ => none

/-- A number that a word of 64 bits holds. -/
def word? : Toml → Option UInt64
  | integer i => if 0 ≤ i ∧ i < UInt64.size then some (.ofNat i.toNat) else none
  | _ => none

/-- Texts by name. -/
def properties? (t : Toml) : Option Properties := do
  (← t.namedFields?).foldlM (fun p (name, value) => value.string?.map (p.insert name)) {}

/-- The value of a setting, or the given one where the setting is missing. -/
def setting {α : Type} (read : Toml → Option α) (fallback : α) : Option Toml → Option α
  | some value => read value
  | none => some fallback

end Toml

def LogConfig.ofToml? (t : Toml) : Option LogConfig := do
  let standard : LogConfig := {}
  let [level, dir, file, size, files] ← t.fieldsOf? ["level", "dir", "file", "max_file_size", "max_files"] | none
  return {
    level := ← Toml.setting Toml.string? standard.level level
    dir := ← Toml.setting Toml.string? standard.dir dir
    file := ← Toml.setting Toml.string? standard.file file
    maxFileSize := ← Toml.setting Toml.word? standard.maxFileSize size
    maxFiles := ← Toml.setting Toml.word? standard.maxFiles files }

def PlannerConfig.ofToml? (t : Toml) : Option PlannerConfig := do
  let standard : PlannerConfig := {}
  let [union, indent, properties] ←
    t.fieldsOf? ["include_union_as_equality", "plan_dump_indent", "properties"] | none
  return {
    includeUnion := ← Toml.setting Toml.boolean? standard.includeUnion union
    indent := ← Toml.setting Toml.word? standard.indent indent
    properties := ← Toml.setting Toml.properties? standard.properties properties }

namespace Config

def ofToml? (t : Toml) : Option Config := do
  let [log, planner] ← t.fieldsOf? ["log", "planner"] | none
  return ⟨← Toml.setting LogConfig.ofToml? {} log, ← Toml.setting PlannerConfig.ofToml? {} planner⟩

/-- Loads settings from a text, if there is one. An indentation of nothing is refused. -/
def load (text : Option String) : Except LoadError Config :=
  match text with
  | none => .error .missing
  | some text =>
    match (Toml.parse? text).bind ofToml? with
    | none => .error .malformed
    | some config => if config.planner.indent = 0 then .error .noIndent else .ok config

/-- All settings as a text. -/
def save (config : Config) : String :=
  let line (key value : String) : String := key ++ " = " ++ value ++ "\n"
  let word (n : UInt64) : String := toString n.toNat
  "[log]\n" ++ line "level" (Toml.quoteText config.log.level) ++ line "dir" (Toml.quoteText config.log.dir) ++
    line "file" (Toml.quoteText config.log.file) ++ line "max_file_size" (word config.log.maxFileSize) ++
    line "max_files" (word config.log.maxFiles) ++
  "\n[planner]\n" ++
    line "include_union_as_equality" (if config.planner.includeUnion then "true" else "false") ++
    line "plan_dump_indent" (word config.planner.indent) ++
  "\n[planner.properties]\n" ++
    String.join (config.planner.properties.entries.map fun (name, value) =>
      line (Toml.quoteKey name) (Toml.quoteText value))

end Config

end ClusterPlan
