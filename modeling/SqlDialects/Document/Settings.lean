import SqlDialects.Dialect
import SqlDialects.Document.Reader
import SqlDialects.Settings

/-!
# Settings and dialects from documents

Settings are an object with a member per setting, or an array of the settings in their order. A setting
that is missing has its default. Members that name no setting are passed over, whatever they hold; one
that names a setting stands once and holds a value of its kind.

Dialects and families go by keys, which spell out the words of their names.
-/

set_option autoImplicit false

namespace SqlDialects

def Dialect.key : Dialect → String
  | default => "default"
  | cubrid => "cubrid"
  | derby => "derby"
  | duckDb => "duck_db"
  | firebird3 => "firebird3"
  | firebird4 => "firebird4"
  | h2 => "h2"
  | hsqldb => "hsqldb"
  | mariaDb => "maria_db"
  | mySql57 => "my_sql57"
  | mySql8 => "my_sql8"
  | postgres14 => "postgres14"
  | postgres16 => "postgres16"
  | sqlite => "sqlite"
  | trino => "trino"
  | yugabyteDb => "yugabyte_db"

def Family.key : Family → String
  | default => "default"
  | cubrid => "cubrid"
  | derby => "derby"
  | duckDb => "duck_db"
  | firebird => "firebird"
  | h2 => "h2"
  | hsqldb => "hsqldb"
  | mariaDb => "maria_db"
  | mySql => "my_sql"
  | postgres => "postgres"
  | sqlite => "sqlite"
  | trino => "trino"
  | yugabyteDb => "yugabyte_db"

namespace Document

/-- The dialect that a document names by its key. -/
def dialect? (doc : Document) : Option Dialect := do
  let tag ← doc.tag?
  Dialect.all.find? (fun d => d.key == tag)

/-- The family that a document names by its key. -/
def family? (doc : Document) : Option Family := do
  let tag ← doc.tag?
  Family.all.find? (fun f => f.key == tag)

/-- How values are written, by its key. -/
def paramType? (doc : Document) : Option ParamType := do
  match ← doc.tag? with
  | "indexed" => some .indexed
  | "inlined" => some .inlined
  | _ => none

/-- Which names are quoted, by its key. -/
def quotedNames? (doc : Document) : Option QuotedNames := do
  match ← doc.tag? with
  | "always" => some .always
  | "as_needed" => some .asNeeded
  | "never" => some .never
  | _ => none

def bool? : Document → Option Bool
  | bool b => some b
  | _ => none

/-- The settings, in the order in which an array holds them. -/
def settingKeys : List String :=
  ["param_type", "render_quoted_names", "render_formatted", "indentation"]

/-- Settings with one of them replaced by what a document holds. A key that names no setting replaces
nothing. -/
def withSetting (s : Settings) (key : String) (doc : Document) : Option Settings :=
  match key with
  | "param_type" => doc.paramType?.map fun v => { s with paramType := v }
  | "render_quoted_names" => doc.quotedNames?.map fun v => { s with quotedNames := v }
  | "render_formatted" => doc.bool?.map fun v => { s with formatted := v }
  | "indentation" => doc.text?.map fun v => { s with indentation := v }
  | _ => some s

/-- Settings from the members of an object. `seen` holds the settings that members before have named. -/
def settingsOfMembers (s : Settings) (seen : List String) :
    List (Option String × Document) → Option Settings
  | [] => some s
  | (none, _) :: _ => none
  | (some key, doc) :: members =>
    if seen.contains key then none
    else do
      let s ← withSetting s key doc
      settingsOfMembers s (if settingKeys.contains key then key :: seen else seen) members

/-- The settings that a document holds. -/
def settings? : Document → Option Settings
  | object members => settingsOfMembers .default [] members
  | array elements =>
    if elements.length ≤ settingKeys.length then
      (settingKeys.zip elements).foldlM (fun s e => withSetting s e.1 e.2) Settings.default
    else none
  | _ => none

end Document

/-- The settings that a JSON text holds. -/
def Settings.ofJson? (text : String) : Option Settings := (Document.ofText? text).bind Document.settings?

/-- The dialect that a JSON text holds. -/
def Dialect.ofJson? (text : String) : Option Dialect := (Document.ofText? text).bind Document.dialect?

/-- The family that a JSON text holds. -/
def Family.ofJson? (text : String) : Option Family := (Document.ofText? text).bind Document.family?

end SqlDialects
