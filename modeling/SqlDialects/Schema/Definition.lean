import SqlDialects.Query.Build
import SqlDialects.SqlType

/-!
# Tables and their columns

What is known about a table or view once its columns have been read: their declared types, which of them
are generated, and which one is the identity. From a definition come the fields and the query that read
the table.
-/

set_option autoImplicit false

namespace SqlDialects.Schema

/-- How a generated column is kept. -/
inductive Generation where
  /-- Computed whenever it is read. -/
  | computed
  /-- Computed when the row is written, and stored with it. -/
  | stored
  deriving DecidableEq, Inhabited

/-- The declared type of a column and what goes with it. -/
structure ColumnType where
  /-- The name of the type, without precision and scale. -/
  typeName : String
  precision : Option Nat
  scale : Option Nat
  nullable : Bool
  /-- The text of the expression for a missing value. -/
  defaultValue : Option String
  /-- How the column is generated, if it is. -/
  generation : Option Generation
  deriving DecidableEq, Inhabited

namespace ColumnType

/-- The type that the declaration stands for. -/
def resolved (t : ColumnType) : SqlType := .ofDeclared t.typeName t.precision t.scale

def isGenerated (t : ColumnType) : Bool := t.generation.isSome

end ColumnType

structure ColumnDefinition where
  name : String
  /-- Its position, counted from one. -/
  position : Nat
  type : ColumnType
  /-- Whether the database assigns its value to a new row. -/
  identity : Bool
  deriving DecidableEq, Inhabited

/-- The column as a field of a query. -/
def ColumnDefinition.field (c : ColumnDefinition) : Field := .column ⟨none, c.name, c.type.resolved⟩

/-- A table or view with its columns in order. -/
structure TableDefinition where
  name : String
  columns : List ColumnDefinition
  deriving DecidableEq, Inhabited

namespace TableDefinition

/-- The first column of a name, in either case. -/
def column? (t : TableDefinition) (name : String) : Option ColumnDefinition :=
  t.columns.find? (fun c => Text.sameIgnoringCase c.name name)

/-- The column of a name as a field. -/
def field? (t : TableDefinition) (name : String) : Option Field :=
  (t.column? name).map ColumnDefinition.field

/-- The identity column, if there is one. -/
def identity? (t : TableDefinition) : Option ColumnDefinition := t.columns.find? (·.identity)

/-- The query of every column. -/
def selectAll (t : TableDefinition) : Select :=
  { Select.ofFields (t.columns.map ColumnDefinition.field) with tables := [.named none t.name none] }

end TableDefinition

end SqlDialects.Schema
