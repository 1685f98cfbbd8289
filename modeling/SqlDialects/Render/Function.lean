import SqlDialects.Query.Expansion
import SqlDialects.Render.Context
import SqlDialects.Render.Operator

/-!
# Writing functions, aggregates and `CASE`

The writers of this library do not call each other. Each is given a visitor, which writes any other
node, and says what it writes itself around the nodes it visits; `Render/Query` ties them together. A
writer may visit nodes that are no parts of its own, when it writes an expansion.
-/

set_option autoImplicit false

namespace SqlDialects

/-- What writes the nodes inside a node. -/
abbrev Visitor := Node → Render Unit

namespace Visitor

open Render

def field (visit : Visitor) (f : Field) : Render Unit := visit (.field f)

def condition (visit : Visitor) (c : Condition) : Render Unit := visit (.condition c)

/-- Writes fields with commas between them. -/
def fields (visit : Visitor) (fs : List Field) : Render Unit :=
  separated ", " (fs.map visit.field)

def call (visit : Visitor) (function : String) (args : List Field) : Render Unit := do
  sql function
  parenthesized (visit.fields args)

/-- Writes the branches of a `CASE`, each with its own way to write what it tests. -/
def branches {α : Type} (visit : Visitor) (test : α → Render Unit) : List (α × Field) → Render Unit
  | [] => pure ()
  | (t, result) :: bs => do
    sql " WHEN "
    test t
    sql " THEN "
    visit.field result
    branches visit test bs

/-- Writes a `CASE` after the given head. One without branches is its `ELSE` result, or null. -/
def caseOf {α : Type} (visit : Visitor) (head : Render Unit) (test : α → Render Unit)
    (bs : List (α × Field)) (otherwise : Option Field) : Render Unit :=
  match bs, otherwise with
  | [], none => literal .null
  | [], some f => visit.field f
  | bs, otherwise => do
    head
    visit.branches test bs
    onSome otherwise fun f => do
      sql " ELSE "
      visit.field f
    sql " END"

def searchedCase (visit : Visitor) (bs : List (Condition × Field)) (otherwise : Option Field) :
    Render Unit :=
  visit.caseOf (sql "CASE") visit.condition bs otherwise

/-- Writes a `CASE` that compares one value with candidates. -/
def simpleCase (visit : Visitor) (subject : Field) (bs : List (Field × Field))
    (otherwise : Option Field) : Render Unit :=
  visit.caseOf (do sql "CASE "; visit.field subject) visit.field bs otherwise

/-- Writes a field that is a searched `CASE`, which is what expansions are. -/
def expansion (visit : Visitor) : Field → Render Unit
  | .searchedCase bs e => visit.searchedCase bs e
  | f => visit.field f

/-- Writes `GREATEST` or `LEAST`. Over fewer than two arguments there is nothing to compare: the
function of one argument is the argument, and that of none is null. -/
def extremum (visit : Visitor) (which : Extremum) (args : List Field) : Render Unit := do
  match args with
  | [] => literal .null
  | [x] => visit.field x
  | first :: second :: rest =>
    match which.strategy (← dialect) with
    | .native => visit.call which.function args
    | .substitute function => visit.call function args
    | .caseExpansion => visit.expansion (which.expand which.comparison first second rest)

/-- Writes `COALESCE`, over fewer than two arguments as `extremum` does. -/
def coalesce (visit : Visitor) (args : List Field) : Render Unit := do
  match args with
  | [] => literal .null
  | [x] => visit.field x
  | args =>
    let strategy := Capability.coalesce (← dialect)
    sql "COALESCE"
    parenthesized (separated ", " (args.map fun x =>
      if strategy = .parenthesizedBooleans ∧ x.type.isBoolean then parenthesized (visit.field x)
      else visit.field x))

def prefixed (visit : Visitor) (symbol : String) (operand : Field) : Render Unit := do
  sql symbol
  if operand.isAtomic then visit.field operand else parenthesized (visit.field operand)

def bitNot (visit : Visitor) (operand : Field) : Render Unit := do
  match Capability.bitNot (← dialect) with
  | .operator symbol => visit.prefixed symbol operand
  | .function function => visit.call function [operand]
  | .unsupported => unsupported "bitwise NOT"

/-- Writes a window. A partition by constants alone is one group and may be left out. -/
def window (visit : Visitor) (w : Window) : Render Unit := do
  let d ← dialect
  demand (Capability.window d) "window functions"
  sql "OVER ("
  let partitioned :=
    !w.partitionBy.isEmpty && (Capability.constantPartition d || !w.partitionBy.all Field.isConstant)
  when partitioned do
    sql "PARTITION BY "
    visit.fields w.partitionBy
  when (!w.orderBy.isEmpty) do
    when partitioned (sql " ")
    sql "ORDER BY "
    separated ", " (w.orderBy.map fun e => visit (.sortField e))
  sql ")"

/-- Writes an aggregate under its own name. -/
def plainAggregate (visit : Visitor) (a : Aggregate) : Render Unit := do
  match a.kind.name (← dialect) with
  | .error construct => unsupported construct
  | .ok function =>
    sql function
    parenthesized do
      when a.distinct (sql "DISTINCT ")
      match a.value with
      | some x => visit.field x
      | none => sql "*"
    onSome a.window fun w => do
      sql " "
      visit (.window w)

/-- Writes an aggregate. A negated bitwise one may have to be the complement of the plain one. -/
def aggregate (visit : Visitor) (a : Aggregate) : Render Unit := do
  match a.kind.complemented?, Capability.negatedBitAggregate (← dialect) with
  | some plain, .complementOfAggregate => visit.bitNot (.aggregate { a with kind := plain })
  | _, _ => visit.plainAggregate a

end Visitor

end SqlDialects
