import SqlDialects.Schema.Reader

/-!
# Calls of a reader

A reader that is kept and called again and again fills in its interpretations while it goes through the columns of a
table. A column asks for the interpreted statement in two places, for a type that the catalog leaves open and for a key
that may count up by itself; whichever comes first has the statement interpreted, and all others find what was kept.
What `TableReader.read` says about a whole table is done here column by column.
-/

set_option autoImplicit false

namespace SqlDialects.Schema

/-- The definition of a column at a position, once its type and whether it is an identity are known. -/
def CatalogColumn.definition (c : CatalogColumn) (t : TypeText) (identity : Bool) (position : Nat) :
    ColumnDefinition where
  name := c.name
  position := position
  type :=
    { typeName := if c.generation?.isSome then String.ofList (withoutGeneration t.name.toList) else t.name
      precision := t.precision
      scale := t.scale
      nullable := !c.notNull
      defaultValue := c.defaultValue
      generation := c.generation? }
  identity := identity

namespace TableReader

/-- The interpreted statement of a table. It is interpreted if nothing is kept for the table, and the outcome is
kept. -/
def interpret (table source : String) : StateM TableReader (Option DeclaredObject) := do
  match (← get).interpretations.lookup table with
  | some kept => return kept
  | none =>
    let declared := (DeclaredObject.ofStatement source).toOption
    modify fun r => { r with interpretations := (table, declared) :: r.interpretations }
    return declared

/-- The type of a column. -/
def readType (table source : String) (c : CatalogColumn) : StateM TableReader TypeText := do
  if c.typeText.isUnknown then
    match (← interpret table source).bind (·.column? c.name) with
    | some d => return ⟨d.typeName, d.precision, d.scale⟩
    | none => return c.typeText
  else return c.typeText

/-- Whether a column is an identity. -/
def readIdentity (table : String) (a : ReadTask.Answers) (c : CatalogColumn) : StateM TableReader Bool := do
  if c.isKey && !a.facts.withoutRowid then
    if a.facts.inSequence then return true
    else if a.facts.isEmpty then return countsUp a.source (← interpret table a.source) c.name
    else return false
  else return false

/-- The definitions of columns, the first of them at a position. -/
def readColumns (table : String) (a : ReadTask.Answers) :
    Nat → List CatalogColumn → StateM TableReader (List ColumnDefinition)
  | _, [] => return []
  | position, c :: cs => do
    let t ← readType table a.source c
    let identity ← readIdentity table a c
    let columns ← readColumns table a (position + 1) cs
    return c.definition t identity position :: columns

/-- A call of a reader: for the columns of a table, or for the table with them. -/
inductive Call where
  | columns (name : String)
  | table (name : String)
  deriving DecidableEq

/-- What a call yields. What the catalog fails with is left open. -/
inductive Answer (ε : Type) where
  | columns (read : Except ε (List ColumnDefinition))
  | table (read : Except ε TableDefinition)

section Calls

variable {ε : Type}

/-- What comes of asking a catalog about a table in the time that a reader has. -/
def fetched (database : String → Catalog) (timeout : Duration) (table : String) : Except ReadError ReadTask.Answers :=
  (ReadTask.answers ⟨table, database table, timeout⟩ |>.run ⟨0, []⟩).1

/-- Reads the columns of a table. Nothing is interpreted before all questions are answered. -/
def columns (fetch : Duration → String → Except ε ReadTask.Answers) (table : String) :
    StateM TableReader (Except ε (List ColumnDefinition)) := do
  match fetch (← get).timeout table with
  | .error e => return .error e
  | .ok a => return .ok (← readColumns table a 1 a.columns)

/-- Reads a table. -/
def table (fetch : Duration → String → Except ε ReadTask.Answers) (name : String) :
    StateM TableReader (Except ε TableDefinition) := do
  return (← columns fetch name).map (TableDefinition.mk name)

/-- What a reader answers to a call. -/
def respond (fetch : Duration → String → Except ε ReadTask.Answers) : Call → StateM TableReader (Answer ε)
  | .columns name => return .columns (← columns fetch name)
  | .table name => return .table (← table fetch name)

/-- What a reader answers to calls that are made one after the other. -/
def session (fetch : Duration → String → Except ε ReadTask.Answers) (calls : List Call) :
    StateM TableReader (List (Answer ε)) :=
  calls.mapM (respond fetch)

end Calls

end TableReader

end SqlDialects.Schema
