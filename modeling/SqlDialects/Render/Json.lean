import SqlDialects.Render.Function

/-!
# Writing JSON constructors and `JSON_VALUE`
-/

set_option autoImplicit false

namespace SqlDialects.Visitor

open Render

/-- Writes an entry of a JSON object with texts before the key and between key and value. -/
def jsonEntry (visit : Visitor) (before between : String) (e : String × Field) : Render Unit := do
  sql before
  literal (.text e.1)
  sql between
  visit.field e.2

/-- Writes what happens to null members, where the dialect has a clause for it. -/
def onNullClause (onNull : Option JsonOnNull) (hasMembers : Bool) : Render Unit := do
  let available := Capability.jsonOnNull (← dialect)
  onSome onNull fun n =>
    when available do
      when hasMembers (sql " ")
      sql n.clause

def jsonObject (visit : Visitor) (entries : List (String × Field)) (onNull : Option JsonOnNull) :
    Render Unit := do
  match Capability.jsonConstructor (← dialect) with
  | .standard =>
    sql "JSON_OBJECT("
    separated ", " (entries.map (visit.jsonEntry "KEY " " VALUE "))
    onNullClause onNull (!entries.isEmpty)
    sql ")"
  | .commaSeparated =>
    sql "JSON_OBJECT("
    separated ", " (entries.map (visit.jsonEntry "" ", "))
    sql ")"
  | .buildFunction =>
    let strip := onNull == some .absent
    when strip (sql "json_strip_nulls(")
    sql "json_build_object("
    separated ", " (entries.map (visit.jsonEntry "" ", "))
    sql ")"
    when strip (sql ")")
  | .unsupported => unsupported "JSON_OBJECT"

def jsonArray (visit : Visitor) (elements : List Field) (onNull : Option JsonOnNull) :
    Render Unit := do
  match Capability.jsonConstructor (← dialect) with
  | .standard =>
    sql "JSON_ARRAY("
    visit.fields elements
    onNullClause onNull (!elements.isEmpty)
    sql ")"
  | .commaSeparated => visit.call "JSON_ARRAY" elements
  | .buildFunction =>
    demand (onNull != some .absent) "JSON_ARRAY ABSENT ON NULL"
    visit.call "json_build_array" elements
  | .unsupported => unsupported "JSON_ARRAY"

/-- Writes what `JSON_VALUE` yields when its path matches nothing. -/
def onEmptyClause (visit : Visitor) : JsonOnEmpty → Render Unit
  | .null => sql " NULL ON EMPTY"
  | .error => sql " ERROR ON EMPTY"
  | .default x => do
    sql " DEFAULT "
    visit.field x
    sql " ON EMPTY"

/-- Writes `JSON_VALUE` in its standard form. -/
def standardJsonValue (visit : Visitor) (document : Field) (path : String)
    (returning : Option SqlType) (onEmpty : Option JsonOnEmpty) : Render Unit := do
  let d ← dialect
  sql "JSON_VALUE("
  visit.field document
  sql ", "
  literal (.text path)
  onSome returning fun t => do
    sql " RETURNING "
    sql (t.castTarget d)
  onSome onEmpty fun e => when (Capability.jsonOnEmpty d) (visit.onEmptyClause e)
  sql ")"

/-- Writes the extraction of a document's value by a substitute. A JSON scalar that it yields is
unwrapped to text. -/
def extraction (visit : Visitor) (function : String) (document : Field) (path : String) :
    Render Unit := do
  if function = Capability.jsonPathQueryFirst then
    sql "("
    sql function
    sql "(CAST("
    visit.field document
    sql " AS JSONB), "
    literal (.text path)
    sql ") #>> '\x7b\x7d')"
  else
    sql function
    sql "("
    visit.field document
    sql ", "
    literal (.text path)
    sql ")"

/-- Writes `JSON_VALUE` by a substitute: the requested type becomes a cast and the default a
`COALESCE`. An error where nothing matches cannot be had this way. -/
def substituteJsonValue (visit : Visitor) (function : String) (document : Field) (path : String)
    (returning : Option SqlType) (onEmpty : Option JsonOnEmpty) : Render Unit := do
  let d ← dialect
  let converted : Render Unit :=
    match returning with
    | none => visit.extraction function document path
    | some t => do
      sql "CAST("
      visit.extraction function document path
      sql " AS "
      sql (t.castTarget d)
      sql ")"
  match onEmpty with
  | some .error => unsupported "JSON_VALUE ERROR ON EMPTY"
  | some (.default x) =>
    sql "COALESCE("
    converted
    sql ", "
    visit.field x
    sql ")"
  | _ => converted

def jsonValue (visit : Visitor) (document : Field) (path : String) (returning : Option SqlType)
    (onEmpty : Option JsonOnEmpty) : Render Unit := do
  match Capability.jsonValue (← dialect) with
  | .standard => visit.standardJsonValue document path returning onEmpty
  | .substitute function => visit.substituteJsonValue function document path returning onEmpty
  | .unsupported => unsupported "JSON_VALUE"

end SqlDialects.Visitor
