import SqlDialects.Render.Hoisting
import SqlDialects.Render.Table

/-!
# Writing selects

A select opens a query level of its own. On it, the common tables are declared as they are written and
then the names of all `FROM` entries, before any clause is written, so that a generated alias avoids
also the names that come later.

Where a `WITH` clause may stand on the outermost statement only, the outermost select collects the
common tables of the whole tree and nested selects write none.
-/

set_option autoImplicit false

namespace SqlDialects.Visitor

open Render

/-- Writes a sort key. Where a dialect cannot place nulls, a `CASE` before the key does. -/
def sortField (visit : Visitor) (e : SortField) : Render Unit := do
  let native := Capability.nullsOrdering (← dialect)
  when (!native) do
    onSome e.nulls fun nulls => do
      visit.expansion (SortField.nullKey e.field nulls)
      sql ", "
  visit.field e.field
  onSome e.order fun order => sql order.keyword
  when native do
    onSome e.nulls fun nulls => sql nulls.keyword

def commonTable (visit : Visitor) (t : CommonTable) : Render Unit := do
  name t.name
  when (!t.columns.isEmpty) (nameList t.columns)
  sql " AS "
  subquery (visit (.select t.select))

/-- Writes common tables, declaring each name before its query. A name that the current level already
declares as a common table is refused. -/
def commonTables (visit : Visitor) (isFirst : Bool) : List CommonTable → Render Unit
  | [] => pure ()
  | t :: ts => do
    let declared := (← scopes).getCurrent? t.name
    when (declared = some .commonTable) (throw (.duplicateCommonTable t.name))
    declare t.name .commonTable
    when (!isFirst) (sql ", ")
    visit (.commonTable t)
    commonTables visit false ts

def withClause (visit : Visitor) (w : With) : Render Unit := do
  sql (if w.recursive then "WITH RECURSIVE " else "WITH ")
  visit.commonTables true w.tables
  gap

/-- Writes the entries of a select list. An aliased entry declares its alias. -/
def selectList (visit : Visitor) (fields : List Field) : Render Unit := do
  if fields.isEmpty then sql "*"
  else
    let flags ← flags
    separated ", " (fields.map fun f =>
      withFlags { flags with declareFields := f.alias?.isSome } (visit.field f))

/-- Writes a clause that is a list of nodes, if there are any. -/
def listClause (visit : Visitor) (keyword : String) (nodes : List Node) : Render Unit :=
  when (!nodes.isEmpty) do
    gap
    sql keyword
    separated ", " (nodes.map visit)

/-- Writes a clause that is a condition, if there is one. -/
def conditionClause (visit : Visitor) (keyword : String) (c : Condition) : Render Unit :=
  when (!c.isEmpty) do
    gap
    sql keyword
    visit.condition c

/-- Writes how the rows are limited. An offset alone may need a limit beside it. -/
def limitClause (limit offset : Option Nat) : Render Unit := do
  let d ← dialect
  match Capability.limit d with
  | .limitOffset =>
    match limit, offset with
    | some n, offset =>
      gap
      sql ("LIMIT " ++ Decimal.digits n)
      onSome offset fun m => sql (" OFFSET " ++ Decimal.digits m)
    | none, some m =>
      gap
      onSome (Capability.unboundedLimit d) fun unbounded => sql ("LIMIT " ++ unbounded ++ " ")
      sql ("OFFSET " ++ Decimal.digits m)
    | none, none => pure ()
  | .offsetFetch =>
    onSome offset fun m => do
      gap
      sql ("OFFSET " ++ Decimal.digits m ++ " ROWS")
    onSome limit fun n => do
      gap
      sql ((if offset.isSome then "FETCH NEXT " else "FETCH FIRST ") ++ Decimal.digits n ++ " ROWS ONLY")

/-- Writes the clauses of a select, from `SELECT` on. -/
def clauses (visit : Visitor) (s : Select) : Render Unit := do
  sql "SELECT "
  when s.distinct (sql "DISTINCT ")
  (s.tables.flatMap Table.declaredNames).forM (fun n => declare n .table)
  visit.selectList s.flattened
  visit.listClause "FROM " (s.tables.map .table)
  visit.conditionClause "WHERE " s.condition
  visit.listClause "GROUP BY " (s.groupBy.map .field)
  visit.conditionClause "HAVING " s.having
  visit.listClause "ORDER BY " (s.orderBy.map .sortField)
  limitClause s.limit s.offset

/-- Writes a select under a `WITH` clause that stands for those of all selects in it. An empty clause is
left out. -/
def selectUnder (visit : Visitor) (w : With) (s : Select) : Render Unit := do
  when (!w.tables.isEmpty) (visit.withClause w)
  let flags ← flags
  withFlags { flags with commonTablesHoisted := true } (visit.clauses s)

/-- Writes the outermost select with the common tables of the whole tree before it. -/
def hoistedSelect (visit : Visitor) (s : Select) : Render Unit := do
  match s.hoisted (← dialect) with
  | .error e => throw e
  | .ok w => visit.selectUnder w s

/-- Writes a select on its query level. -/
def selectOnLevel (visit : Visitor) (s : Select) (outermost : Bool) : Render Unit := do
  match Capability.withClause (← dialect) with
  | .native =>
    onSome s.withClause visit.withClause
    visit.clauses s
  | .unsupported =>
    demand s.withClause.isNone "WITH"
    visit.clauses s
  | .hoistToTopLevel =>
    let flags ← flags
    if outermost && !flags.commonTablesHoisted then visit.hoistedSelect s else visit.clauses s

/-- Writes a select. It is the outermost one if no query level is open around it. -/
def select (visit : Visitor) (s : Select) : Render Unit := do
  let outermost := !(← scopes).isOpen
  onQueryLevel (visit.selectOnLevel s outermost)

end SqlDialects.Visitor
