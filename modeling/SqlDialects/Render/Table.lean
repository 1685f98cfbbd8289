import SqlDialects.Render.Condition

/-!
# Writing `FROM` entries

Joins are written so that they associate to the left: a join on the right is put in parentheses. The
condition of a join that takes none is left out.
-/

set_option autoImplicit false

namespace SqlDialects

namespace IndexHintKind

def keyword : IndexHintKind → String
  | use => "USE INDEX "
  | force => "FORCE INDEX "
  | ignore => "IGNORE INDEX "

end IndexHintKind

namespace Visitor

open Render

def hint (h : IndexHint) : Render Unit := do
  sql h.kind.keyword
  nameList h.indexes

/-- Writes a derived table. Where the alias takes no column list, the columns are renamed inside. -/
def derived (visit : Visitor) (s : Select) (asName : String) (columns : List String) : Render Unit := do
  if columns.isEmpty || Capability.derivedColumnList (← dialect) then
    subquery (visit (.select s))
    sql " AS "
    name asName
    when (!columns.isEmpty) (nameList columns)
  else
    let inner ← renamed s columns "derived column list"
    subquery (visit (.select inner))
    sql " AS "
    name asName

/-- Writes how the rows of a join are matched. -/
def joinCondition (visit : Visitor) : JoinCondition → Render Unit
  | .none => pure ()
  | .on c => do
    sql " ON "
    visit.condition c
  | .using columns => do
    sql " USING "
    nameList columns

def tableParts (visit : Visitor) : Table → Render Unit
  | .named schema n asName => do
    onSome schema fun s => do
      name s
      sql "."
    name n
    onSome asName fun a => do
      sql " AS "
      name a
  | .derived s asName columns => visit.derived s asName columns
  | .lateral t => do
    demand (Capability.lateral (← dialect)) "LATERAL"
    sql "LATERAL "
    visit (.table t)
  | .join type left right matching => do
    visit (.table left)
    sql " "
    sql type.keyword
    sql " "
    if right.isJoin then parenthesized (visit (.table right)) else visit (.table right)
    when type.takesCondition (visit.joinCondition matching)
  | .hinted t h => do
    visit (.table t)
    let available := Capability.indexHints (← dialect)
    when available do
      sql " "
      visit (.hint h)

end Visitor

end SqlDialects
