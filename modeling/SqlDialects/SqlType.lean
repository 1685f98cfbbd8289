import SqlDialects.Dialect
import SqlDialects.Decimal.Binary64

/-!
# SQL data types

The types that columns, literals and casts carry. A type has three texts: the standard spelling, the
spelling of a `CAST` target (which some dialects restrict), and the many declared names that resolve
to it. A name that resolves to nothing known is kept as a custom type; the blank name and `OTHER` are
the unknown type.
-/

set_option autoImplicit false

namespace SqlDialects

inductive SqlType where
  | smallInt
  | integer
  | bigInt
  | real
  | double
  | decimal (precision scale : Option Nat)
  | char (length : Option Nat)
  | varchar (length : Option Nat)
  | text
  | blob
  | date
  | time
  | timestamp
  | boolean
  | json
  | xml
  /-- A type of one database only, by its name. -/
  | custom (name : String)
  /-- The type nothing is known about. -/
  | other
  deriving DecidableEq, Inhabited

namespace SqlType

/-- The text of a type with its optional length. -/
def sized (name : String) : Option Nat → String
  | none => name
  | some n => name ++ "(" ++ Decimal.digits n ++ ")"

/-- The standard spelling of a type. A scale is written only after a precision. -/
def toSql : SqlType → String
  | smallInt => "SMALLINT"
  | integer => "INTEGER"
  | bigInt => "BIGINT"
  | real => "REAL"
  | double => "DOUBLE PRECISION"
  | decimal (some p) (some s) => "DECIMAL(" ++ Decimal.digits p ++ ", " ++ Decimal.digits s ++ ")"
  | decimal p _ => sized "DECIMAL" p
  | char n => sized "CHAR" n
  | varchar n => sized "VARCHAR" n
  | text => "TEXT"
  | blob => "BLOB"
  | date => "DATE"
  | time => "TIME"
  | timestamp => "TIMESTAMP"
  | boolean => "BOOLEAN"
  | json => "JSON"
  | xml => "XML"
  | custom name => name
  | other => "OTHER"

/-- The spelling of a type as the target of a `CAST`. -/
def castTarget (t : SqlType) (d : Dialect) : String :=
  match d.family, t with
  | .mySql, smallInt | .mySql, integer | .mySql, bigInt | .mySql, boolean
  | .mariaDb, smallInt | .mariaDb, integer | .mariaDb, bigInt | .mariaDb, boolean => "SIGNED"
  | .mySql, char _ | .mySql, varchar _ | .mySql, text
  | .mariaDb, char _ | .mariaDb, varchar _ | .mariaDb, text => "CHAR"
  | .mySql, real | .mySql, double | .mariaDb, real | .mariaDb, double => "DOUBLE"
  | .sqlite, double => "REAL"
  | .postgres, blob | .yugabyteDb, blob => "BYTEA"
  | .postgres, json | .yugabyteDb, json => "JSONB"
  | _, _ => t.toSql

/-- A precision or scale that fits the sixteen bits a decimal type has for it; a larger one is
dropped. -/
def narrow (v : Option Nat) : Option Nat :=
  v.filter (· < Nat.pow 2 16)

/-- The type that a declared name stands for. Case and surrounding blanks do not matter, and the
lengths count only for the types that have them. -/
def ofDeclared (name : String) (precision scale : Option Nat) : SqlType :=
  match Text.asciiUpper (Text.trim name) with
  | "" | "OTHER" => other
  | "SMALLINT" | "INT2" | "TINYINT" => smallInt
  | "INT" | "INTEGER" | "INT4" | "MEDIUMINT" => integer
  | "BIGINT" | "INT8" => bigInt
  | "REAL" | "FLOAT" | "FLOAT4" => real
  | "DOUBLE" | "DOUBLE PRECISION" | "FLOAT8" => double
  | "DECIMAL" | "NUMERIC" => decimal (narrow precision) (narrow scale)
  | "CHAR" | "CHARACTER" | "NCHAR" => char precision
  | "VARCHAR" | "CHARACTER VARYING" | "NVARCHAR" | "VARYING CHARACTER" => varchar precision
  | "TEXT" | "CLOB" => text
  | "BLOB" | "BYTEA" | "BINARY" | "VARBINARY" => blob
  | "DATE" => date
  | "TIME" => time
  | "TIMESTAMP" | "DATETIME" => timestamp
  | "BOOLEAN" | "BOOL" => boolean
  | "JSON" | "JSONB" => json
  | "XML" => xml
  | _ => custom (Text.trim name)

def isBoolean : SqlType → Bool
  | boolean => true
  | _ => false

def isKnown : SqlType → Bool
  | other => false
  | _ => true

end SqlType

end SqlDialects
