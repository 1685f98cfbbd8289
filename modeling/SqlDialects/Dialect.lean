import SqlDialects.Text.Basic

/-!
# Dialects and their families

A **dialect** is one concrete target database, sometimes pinned to a range of versions; a **family**
is the group of dialects that share their emulation rules. Everything that differs between targets is
decided from these two, so this module is at the bottom of the import graph: it holds the names, the
way a name is read, and the two conventions that hold for a whole family (the quote character and the
style of placeholders).

`Dialect.ofName?` reads both kinds of names. A family name stands for the latest dialect of the
family, which is what `Family.latest` records.
-/

set_option autoImplicit false

namespace SqlDialects

/-- A concrete target database. -/
inductive Dialect where
  | default
  | cubrid
  | derby
  | duckDb
  | firebird3
  | firebird4
  | h2
  | hsqldb
  | mariaDb
  | mySql57
  | mySql8
  | postgres14
  | postgres16
  | sqlite
  | trino
  | yugabyteDb
  deriving DecidableEq, Inhabited

/-- A group of dialects that share their emulation rules. -/
inductive Family where
  | default
  | cubrid
  | derby
  | duckDb
  | firebird
  | h2
  | hsqldb
  | mariaDb
  | mySql
  | postgres
  | sqlite
  | trino
  | yugabyteDb
  deriving DecidableEq, Inhabited

/-- How a bind value is written: a question mark, or a dollar sign and the bind's number. -/
inductive PlaceholderStyle where
  | question
  | dollar
  deriving DecidableEq, Inhabited

namespace Dialect

/-- Every dialect, in the order in which sets of dialects are listed. -/
def all : List Dialect :=
  [default, cubrid, derby, duckDb, firebird3, firebird4, h2, hsqldb, mariaDb, mySql57, mySql8,
    postgres14, postgres16, sqlite, trino, yugabyteDb]

theorem mem_all (d : Dialect) : d ∈ all := by
  cases d <;> decide

def family : Dialect → Family
  | default => .default
  | cubrid => .cubrid
  | derby => .derby
  | duckDb => .duckDb
  | firebird3 | firebird4 => .firebird
  | h2 => .h2
  | hsqldb => .hsqldb
  | mariaDb => .mariaDb
  | mySql57 | mySql8 => .mySql
  | postgres14 | postgres16 => .postgres
  | sqlite => .sqlite
  | trino => .trino
  | yugabyteDb => .yugabyteDb

/-- The name of a dialect, as messages spell it. -/
def name : Dialect → String
  | default => "default"
  | cubrid => "cubrid"
  | derby => "derby"
  | duckDb => "duckdb"
  | firebird3 => "firebird3"
  | firebird4 => "firebird4"
  | h2 => "h2"
  | hsqldb => "hsqldb"
  | mariaDb => "mariadb"
  | mySql57 => "mysql57"
  | mySql8 => "mysql8"
  | postgres14 => "postgres14"
  | postgres16 => "postgres16"
  | sqlite => "sqlite"
  | trino => "trino"
  | yugabyteDb => "yugabytedb"

end Dialect

namespace Family

/-- Every family, in declaration order. -/
def all : List Family :=
  [default, cubrid, derby, duckDb, firebird, h2, hsqldb, mariaDb, mySql, postgres, sqlite, trino,
    yugabyteDb]

def name : Family → String
  | default => "default"
  | cubrid => "cubrid"
  | derby => "derby"
  | duckDb => "duckdb"
  | firebird => "firebird"
  | h2 => "h2"
  | hsqldb => "hsqldb"
  | mariaDb => "mariadb"
  | mySql => "mysql"
  | postgres => "postgres"
  | sqlite => "sqlite"
  | trino => "trino"
  | yugabyteDb => "yugabytedb"

def latest : Family → Dialect
  | default => .default
  | cubrid => .cubrid
  | derby => .derby
  | duckDb => .duckDb
  | firebird => .firebird4
  | h2 => .h2
  | hsqldb => .hsqldb
  | mariaDb => .mariaDb
  | mySql => .mySql8
  | postgres => .postgres16
  | sqlite => .sqlite
  | trino => .trino
  | yugabyteDb => .yugabyteDb

theorem family_latest (f : Family) : f.latest.family = f := by
  cases f <;> rfl

/-- The families that may be named without naming a dialect, each under every spelling it goes by. -/
def nicknames : List (String × Family) :=
  [("postgres", postgres), ("postgresql", postgres), ("mysql", mySql), ("firebird", firebird),
    ("yugabyte", yugabyteDb), ("sqlite3", sqlite)]

end Family

namespace Dialect

/-- The dialect a name stands for, ignoring case and surrounding blanks. A dialect's own name comes
first; a family's name stands for its latest dialect. -/
def ofName? (text : String) : Option Dialect :=
  let wanted := Text.asciiLower (Text.trim text)
  match all.find? (fun d => d.name == wanted) with
  | some d => some d
  | none => (Family.nicknames.lookup wanted).map Family.latest

/-- What is said of a name that no dialect and no family goes by. -/
def unknownNameMessage (text : String) : String :=
  "unknown SQL dialect: " ++ text

/-- The character that opens and closes a quoted identifier. -/
def identifierQuote (d : Dialect) : Char :=
  match d.family with
  | .mySql | .mariaDb => '\x60'
  | _ => '"'

def placeholderStyle (d : Dialect) : PlaceholderStyle :=
  match d.family with
  | .postgres | .yugabyteDb => .dollar
  | _ => .question

/-- A quoted identifier; a quote character inside the name is written twice. -/
def quoteIdentifier (d : Dialect) (name : String) : String :=
  Text.quoted d.identifierQuote name

end Dialect

end SqlDialects
