import SqlDialects.Duration
import SqlDialects.Schema.Declaration
import SqlDialects.Schema.Definition

/-!
# Reading tables from a catalog

A catalog answers questions about one table; each answer may take time, and a read that takes longer than
the timeout of its reader is given up. What the catalog says about columns is completed from the creation
statement: it has the types that the catalog leaves blank, and it tells whether a key of a table that has
never held a row counts up by itself.

A reader interprets the statement of a table at most once, when a column first asks for it, and keeps the
outcome, also that it could not be interpreted. So during one read all columns see the same
interpretation, and the reading itself (`Reading`) has no part in it.
-/

set_option autoImplicit false

namespace SqlDialects.Schema

open Text

/-! ## The catalog -/

/-- A question to the catalog. -/
inductive CatalogQuery where
  /-- The creation statement of the table. -/
  | source
  /-- The columns of the table. -/
  | columns
  /-- Whether the database counts up any keys. -/
  | sequenceExists
  /-- Whether the table has a counted key. -/
  | sequenceEntry
  /-- Whether the table has no rows. -/
  | isEmpty
  deriving DecidableEq, Inhabited

/-- What the catalog says about a column. -/
structure CatalogColumn where
  name : String
  /-- The declared type with its precision and scale; blank if none is known. -/
  declaredType : String
  notNull : Bool
  defaultValue : Option String
  /-- The place in the primary key, counted from one; zero outside the key. -/
  keyPlace : Int
  /-- The code that says whether the column is hidden or generated. -/
  hidden : Int
  deriving DecidableEq, Inhabited

def CatalogColumn.isKey (c : CatalogColumn) : Bool := 0 < c.keyPlace

/-- How the column is generated: the codes two and three stand for the two ways, any other for none. -/
def CatalogColumn.generation? (c : CatalogColumn) : Option Generation :=
  match c.hidden with
  | 2 => some .computed
  | 3 => some .stored
  | _ => none

/-- The answers of a catalog about one table. -/
structure Catalog where
  /-- The creation statement, if there is such a table. -/
  source : Option String
  columns : List CatalogColumn
  sequenceExists : Bool
  sequenceEntry : Bool
  isEmpty : Bool
  /-- How many milliseconds an answer takes; nothing if it never comes. -/
  latency : CatalogQuery → Option Nat

/-- Why a table cannot be read. -/
inductive ReadError where
  /-- The answers took too long. -/
  | timeout (table : String) (limit : Duration)
  /-- There is no such table. -/
  | tableNotFound (table : String)
  deriving DecidableEq

def ReadError.message : ReadError → String
  | timeout table limit =>
    "Reading metadata for table '" ++ table ++ "' timed out after " ++ limit.text
  | tableNotFound table => "Table not found: " ++ table

/-! ## Asking -/

/-- How far a read has come. -/
structure Progress where
  /-- The milliseconds spent on answers. -/
  elapsed : Nat
  /-- The questions asked so far, in order. -/
  asked : List CatalogQuery
  deriving Inhabited

/-- A read under way: it may fail, and what it has asked stands even then. -/
abbrev Reading := ExceptT ReadError (StateM Progress)

/-- A read of one table. -/
structure ReadTask where
  table : String
  catalog : Catalog
  timeout : Duration

namespace ReadTask

/-- Asks the catalog and waits for the answer. An answer without delay is always in time; one that arrives
with the last tick of the timeout is, too. -/
def ask {α : Type} (task : ReadTask) (query : CatalogQuery) (answer : α) : Reading α := do
  modify fun p => { p with asked := p.asked ++ [query] }
  match task.catalog.latency query with
  | some 0 => return answer
  | some delay =>
    let elapsed := (← get).elapsed + delay
    if elapsed ≤ task.timeout.milliseconds then
      modify fun p => { p with elapsed := elapsed }
      return answer
    else throw (.timeout task.table task.timeout)
  | none => throw (.timeout task.table task.timeout)

/-- What decides about a table whether a key is an identity. -/
structure KeyFacts where
  withoutRowid : Bool
  inSequence : Bool
  isEmpty : Bool

/-- The facts about the keys of the table. A table without row ids has none to count, and only one whose
keys have not been counted is asked for rows. -/
def keyFacts (task : ReadTask) (source : String) : Reading KeyFacts := do
  if isWithoutRowid source then return ⟨true, false, false⟩
  let catalog := task.catalog
  let inSequence ←
    if ← task.ask .sequenceExists catalog.sequenceExists then
      task.ask .sequenceEntry catalog.sequenceEntry
    else pure false
  let isEmpty ← if inSequence then pure false else task.ask .isEmpty catalog.isEmpty
  return ⟨false, inSequence, isEmpty⟩

/-- What a read learns from the catalog. -/
structure Answers where
  source : String
  columns : List CatalogColumn
  facts : KeyFacts

/-- Asks all that a read needs to know. Facts about keys are asked only for a table that has a key. -/
def answers (task : ReadTask) : Reading Answers := do
  match ← task.ask .source task.catalog.source with
  | none => throw (.tableNotFound task.table)
  | some source =>
    let columns ← task.ask .columns task.catalog.columns
    let facts ← if columns.any CatalogColumn.isKey then task.keyFacts source
      else pure ⟨false, false, false⟩
    return ⟨source, columns, facts⟩

end ReadTask

/-! ## Types as the catalog spells them -/

/-- A text without the parts that a step takes. `covered` counts the characters at its start that belong
to a part already taken. -/
def removing (take : List Char → Option (List Char)) (covered : Nat) : List Char → List Char
  | [] => []
  | c :: cs =>
    match covered with
    | n + 1 => removing take n cs
    | 0 =>
      match take (c :: cs) with
      | some rest => removing take (cs.length - rest.length) cs
      | none => c :: removing take 0 cs

/-- The first precision between parentheses in a text. -/
def firstMeasure? : List Char → Option Measure
  | [] => none
  | c :: cs =>
    match takeMeasure (c :: cs) with
    | some (m, _) => some m
    | none => firstMeasure? cs

/-- The words `GENERATED ALWAYS` with the blanks around them, taken from the start of a text. -/
def takeGeneratedAlways (cs : List Char) : Option (List Char) :=
  (((dropWord "generated" (trimStart cs)).bind (dropKeyword "always"))).map trimStart

/-- The name of a type without any precision. -/
def withoutMeasures (cs : List Char) : List Char :=
  trimChars (removing (fun cs => (takeMeasure cs).map Prod.snd) 0 cs)

/-- The name of a type without the words that say that the column is generated. -/
def withoutGeneration (cs : List Char) : List Char :=
  trimChars (removing takeGeneratedAlways 0 cs)

/-- A declared type: its name, precision and scale. -/
structure TypeText where
  name : String
  precision : Option Nat
  scale : Option Nat
  deriving DecidableEq, Inhabited

/-- The type that the catalog declares for a column. -/
def CatalogColumn.typeText (c : CatalogColumn) : TypeText :=
  let measure := firstMeasure? c.declaredType.toList
  { name := String.ofList (withoutMeasures c.declaredType.toList)
    precision := Measure.precision? measure
    scale := Measure.scale? measure }

/-- Whether a type says nothing, so that the creation statement is asked for it. -/
def TypeText.isUnknown (t : TypeText) : Bool := t.name == "" || sameIgnoringCase t.name "OTHER"

/-! ## Columns -/

/-- The type of a column, completed from the interpreted statement if the catalog leaves it open. -/
def completedType (declared : Option DeclaredObject) (c : CatalogColumn) : TypeText :=
  if c.typeText.isUnknown then
    match declared.bind (·.column? c.name) with
    | some d => ⟨d.typeName, d.precision, d.scale⟩
    | none => c.typeText
  else c.typeText

/-- Whether a column is declared to count up. A statement that cannot be interpreted is searched as a
whole. -/
def countsUp (source : String) (declared : Option DeclaredObject) (column : String) : Bool :=
  match declared with
  | some o => (o.column? column).any DeclaredColumn.isAutoincrement
  | none => mentionsAutoincrement source

/-- Whether the statement is asked whether a column counts up: its table has row ids, none of its keys has
been counted, and it has no rows. -/
def ReadTask.KeyFacts.asksStatement (f : ReadTask.KeyFacts) (c : CatalogColumn) : Bool :=
  c.isKey && !f.withoutRowid && !f.inSequence && f.isEmpty

/-- Whether a column is an identity. -/
def ReadTask.Answers.isIdentity (a : ReadTask.Answers) (declared : Option DeclaredObject)
    (c : CatalogColumn) : Bool :=
  c.isKey && !a.facts.withoutRowid
    && (a.facts.inSequence || (a.facts.isEmpty && countsUp a.source declared c.name))

/-- The definition of a column at a position. -/
def ReadTask.Answers.column (a : ReadTask.Answers) (declared : Option DeclaredObject)
    (c : CatalogColumn) (position : Nat) : ColumnDefinition :=
  let t := completedType declared c
  { name := c.name
    position := position
    type :=
      { typeName :=
          if c.generation?.isSome then String.ofList (withoutGeneration t.name.toList) else t.name
        precision := t.precision
        scale := t.scale
        nullable := !c.notNull
        defaultValue := c.defaultValue
        generation := c.generation? }
    identity := a.isIdentity declared c }

/-- Whether any column asks for the interpreted statement. -/
def ReadTask.Answers.needsStatement (a : ReadTask.Answers) : Bool :=
  a.columns.any (fun c => c.typeText.isUnknown || a.facts.asksStatement c)

/-- The definitions of the columns. -/
def ReadTask.Answers.definition (a : ReadTask.Answers) (table : String)
    (declared : Option DeclaredObject) : TableDefinition :=
  ⟨table, a.columns.mapIdx (fun i c => a.column declared c (i + 1))⟩

/-! ## Readers -/

/-- A reader of tables. -/
structure TableReader where
  timeout : Duration
  /-- The interpreted statements by table; nothing stands for one that was refused. -/
  interpretations : List (String × Option DeclaredObject)

namespace TableReader

/-- The timeout of a reader that is given none. -/
def defaultTimeout : Duration := .ofSeconds 30

/-- A reader that has read nothing. -/
def new (timeout : Duration) : TableReader := ⟨timeout, []⟩

/-- The interpretation of a statement. A kept one of that table stands for it. -/
def interpretation (r : TableReader) (table source : String) : Option DeclaredObject :=
  (r.interpretations.lookup table).getD (DeclaredObject.ofStatement source).toOption

/-- The reader after it has kept the interpretation of a statement. -/
def keep (r : TableReader) (table source : String) : TableReader :=
  match r.interpretations.lookup table with
  | some _ => r
  | none =>
    { r with interpretations := (table, r.interpretation table source) :: r.interpretations }

/-- What a read yields: the table, the questions that were asked, and the reader after it. -/
structure Outcome where
  table : Except ReadError TableDefinition
  asked : List CatalogQuery
  reader : TableReader

/-- Reads a table from a catalog. -/
def read (r : TableReader) (catalog : Catalog) (table : String) : Outcome :=
  let task : ReadTask := ⟨table, catalog, r.timeout⟩
  match task.answers.run ⟨0, []⟩ with
  | (.error e, p) => ⟨.error e, p.asked, r⟩
  | (.ok a, p) =>
    { table := .ok (a.definition table (r.interpretation table a.source))
      asked := p.asked
      reader := if a.needsStatement then r.keep table a.source else r }

end TableReader

end SqlDialects.Schema
