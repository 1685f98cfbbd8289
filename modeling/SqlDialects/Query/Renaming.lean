import SqlDialects.Query.Node
import SqlDialects.Query.Inference
import SqlDialects.Text.Fresh

/-!
# Renaming the columns of a select

A select can be made to yield its columns under given names. If nothing but the select list names its
columns, the list itself is renamed. `GROUP BY`, `HAVING` and `ORDER BY` may refer to the names there
are, so a select with one of these is left as it is and read through a projection; then every column
needs a name to be read by. A column keeps the name it has, unless an earlier one has it, and any other
expression is given a name that no alias and no column of the select uses.

Names are compared without regard to the case of ASCII letters.
-/

set_option autoImplicit false

namespace SqlDialects

/-- The names of the columns that occur in a node outside selects. -/
def Node.columnNames (n : Node) : List String :=
  match n with
  | .select _ => []
  | .field (.column c) => [c.name]
  | n => n.children.attach.flatMap (fun c => c.1.columnNames)
termination_by sizeOf n
decreasing_by exact Node.sizeOf_lt_of_mem_children c.2

namespace Field

/-- The name under which a field can be read from a derived table without renaming it. -/
def naturalName? : Field → Option String
  | aliased _ a => some a
  | column c => some c.name
  | _ => none

/-- A field that goes by a name. One that already does is left as it is. -/
def named (f : Field) (name : String) : Field :=
  if f.naturalName? = some name then f else aliased f.unaliased name

end Field

namespace Select

/-- The names, in lower case, that a generated column name must avoid. -/
def takenNames (s : Select) (fields : List Field) : List String :=
  let nodes := fields.map Node.field ++ s.groupBy.map Node.field ++ s.orderBy.map Node.sortField
    ++ [Node.condition s.having]
  (fields.filterMap Field.alias? ++ nodes.flatMap Node.columnNames).map Text.asciiLower

/-- The candidates for the generated name of the column at an index. -/
def generatedName (index tries : Nat) : String :=
  "c" ++ Decimal.digits (index + 1) ++ String.ofList (List.replicate tries '_')

/-- Names for columns from an index on. `used` holds the names given so far, in lower case. -/
def nameColumns (taken : List String) (index : Nat) (used : List String) : List Field → List String
  | [] => []
  | f :: fs =>
    let generated := Text.firstFree (generatedName index) (taken ++ used)
    let name :=
      match f.naturalName? with
      | some n => if used.contains (Text.asciiLower n) then generated else n
      | none => generated
    name :: nameColumns taken (index + 1) (Text.asciiLower name :: used) fs

/-- The names under which the flattened fields of a select can be read from a derived table. -/
def outputNames (s : Select) (fields : List Field) : List String :=
  nameColumns (s.takenNames fields) 0 [] fields

/-- A select with its columns renamed. -/
inductive Renaming where
  | inPlace (select : Select)
  /-- By a projection: the select under names of its own, each with the name it is to be read under. -/
  | projected (inner : Select) (columns : List (String × String))

namespace Renaming

/-- Whether the renamed select is a projection and so needs an alias. -/
def needsAlias : Renaming → Bool
  | inPlace _ => false
  | projected _ _ => true

/-- The renamed select, a projection going by the given alias. -/
def toSelect (asName : String) : Renaming → Select
  | inPlace s => s
  | projected inner columns =>
    { ofFields (columns.map (fun c => .aliased (.qualified asName c.1) c.2)) with
      tables := [.derived inner asName []] }

end Renaming

/-- Renames the columns of a select. There must be as many names as columns, and at least one. -/
def rename? (s : Select) (names : List String) : Option Renaming :=
  let fields := s.flattened
  if fields.isEmpty ∨ fields.length ≠ names.length then none
  else if s.groupBy.isEmpty ∧ s.having.isEmpty ∧ s.orderBy.isEmpty then
    some (.inPlace { s with fields := List.zipWith (fun f n => .aliased f.unaliased n) fields names })
  else
    let columns := s.outputNames fields
    let inner := { s with fields := List.zipWith Field.named fields columns }
    some (.projected inner (columns.zip names))

end Select

end SqlDialects
